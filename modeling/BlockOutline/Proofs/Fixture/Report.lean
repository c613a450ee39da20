import Mathlib.Data.List.Flatten
import BlockOutline.Program
import BlockOutline.Proofs.Fixture.Discovery

/-! # Reports

A test run reports on each selected fixture once. It succeeds exactly if there is one and all of
them pass. -/

namespace BlockOutline

open Terminal (Message Piece)

/-! ## Labels -/

namespace Text

theorem dropEnding?_append (stem ending : String) :
    dropEnding? (stem ++ ending) ending = some stem := by
  simp [dropEnding?, endsWith]

end Text

theorem Path.fileName?_of_components {path name : Bytes} {before : List Component}
    (h : components path = before ++ [.name name]) : fileName? path = some name := by
  simp [fileName?, h]

namespace Fixture

@[simp] theorem path_run (x : Fixture) : x.run.path = x.path := by
  unfold run
  split
  · rfl
  · split <;> rfl

/-- A fixture that is called by its description, or else by its file name without the ending. -/
def Labelled (x : Fixture) : Prop :=
  ∃ stem, Path.fileName? x.path = some (Text.encode (stem ++ fixtureEnding)) ∧
    x.run.label = x.run.description.getD stem

theorem Finds.named {entries : List (Bytes × Entry)} {f : Finding} (h : Finds entries f) :
    ∃ stem : String, f.name = Text.encode (stem ++ fixtureEnding) := by
  induction h with
  | here _ _ named => exact named
  | inside _ _ ih => exact ih

theorem Finds.labelled {root : Bytes} {entries : List (Bytes × Entry)}
    (proper : (Entry.directory entries).Proper) {f : Finding} (h : Finds entries f) :
    Labelled (f.fixture root) := by
  obtain ⟨stem, hstem⟩ := h.named
  have hname : Path.fileName? (f.path root) = some (Text.encode (stem ++ fixtureEnding)) := by
    have hcomponents : Path.components (f.path root) = Path.components root ++ f.components :=
      components_path (h.proper proper)
    rw [Finding.components, Finding.names, List.map_append, ← List.append_assoc] at hcomponents
    exact (Path.fileName?_of_components hcomponents).trans (congrArg some hstem)
  refine ⟨stem, hname, ?_⟩
  rw [FixtureResult.label, FixtureResult.labelOf, path_run, Finding.fixture, hname, Option.bind_some,
    Bytes.text?_encode, Option.bind_some, Text.dropEnding?_append, Option.getD_some]

end Fixture

/-! ## Selected fixtures -/

namespace Suite

open Fixture

/-- The fixtures of the requested categories, one category after the other. -/
def selected (s : Suite) (requests : List String) : List Fixture :=
  (s.groups requests).flatMap (·.fixtures)

/-- A category that is requested; without a request, any category. -/
def Requested (requests : List String) (category : String) : Prop :=
  requests = [] ∨ ∃ request ∈ requests, Category.selects (Category.plain request) category = true

/-- What is run at a path: a file alone, or of a directory the fixtures of the requested categories,
each once, in the order of the categories and then of the paths. -/
inductive Runs (lookup : Lookup) (path : Bytes) (requests : List String) :
    List Fixture → Prop where
  | file {text} (h : lookup path = .ok (.file text)) : Runs lookup path requests [⟨path, text⟩]
  | directory {entries xs} (h : lookup path = .ok (.directory entries))
      (mem_iff : ∀ x, x ∈ xs ↔
        ∃ f, Finds entries f ∧ Requested requests f.category ∧ f.fixture path = x)
      (once : (xs.map fun x => Path.components x.path).Nodup)
      (ordered : xs.Pairwise fun x y => category path x.path < category path y.path ∨
        category path x.path = category path y.path ∧ Path.le x.path y.path = true)
      (labelled : ∀ x ∈ xs, Labelled x) : Runs lookup path requests xs
  | nothing (file : ∀ text, lookup path ≠ .ok (.file text))
      (directory : ∀ entries, lookup path ≠ .ok (.directory entries)) :
      Runs lookup path requests []

theorem mem_select_iff {α : Type} {m : NameMap α} {requests : List String} {e : String × α} :
    e ∈ (Category.select m requests).entries ↔ e ∈ m.entries ∧ Requested requests e.1 := by
  cases requests with
  | nil => simp [Category.select, Requested]
  | cons request requests => simp [Category.select, Requested, NameMap.filter]

theorem select_sublist {α : Type} (m : NameMap α) (requests : List String) :
    (Category.select m requests).entries.Sublist m.entries := by
  unfold Category.select
  split
  · exact List.Sublist.refl _
  · exact List.filter_sublist

theorem selected_categorized (m : NameMap (List Fixture)) (requests : List String) :
    (categorized m).selected requests = (Category.select m requests).members := by
  simp [selected, groups, NameMap.members, List.flatMap_map]

section Directory

variable {path : Bytes} {entries : List (Bytes × Entry)}
  (proper : (Entry.directory entries).Proper)

include proper

theorem mem_members_select_iff {requests : List String} {x : Fixture} :
    x ∈ (Category.select (discover path (.directory entries)) requests).members ↔
      ∃ f, Finds entries f ∧ Requested requests f.category ∧ f.fixture path = x := by
  simp only [NameMap.members, List.mem_flatMap, mem_select_iff]
  constructor
  · intro h
    obtain ⟨⟨k, xs⟩, ⟨he, hrequested⟩, hx⟩ := h
    have hfind := (NameMap.find?_eq_some_iff _).mpr he
    obtain ⟨f, hf, rfl, hfixture⟩ := (mem_discover_iff proper).mp ⟨xs, hfind, hx⟩
    exact ⟨f, hf, hrequested, hfixture⟩
  · intro h
    obtain ⟨f, hf, hrequested, hfixture⟩ := h
    obtain ⟨xs, hfind, hx⟩ := (mem_discover_iff proper).mpr ⟨f, hf, rfl, hfixture⟩
    exact ⟨⟨_, xs⟩, ⟨(NameMap.find?_eq_some_iff _).mp hfind, hrequested⟩, hx⟩

theorem category_of_mem_discover {k : String} {xs : List Fixture}
    (h : (k, xs) ∈ (discover path (.directory entries)).entries) {x : Fixture} (hx : x ∈ xs) :
    category path x.path = k := by
  have hfind := (NameMap.find?_eq_some_iff _).mpr h
  obtain ⟨f, hf, hcategory, rfl⟩ := (mem_discover_iff proper).mp ⟨xs, hfind, hx⟩
  rw [← hcategory]
  exact category_path (hf.proper proper)

theorem ordered_members_select (requests : List String) :
    (Category.select (discover path (.directory entries)) requests).members.Pairwise fun x y =>
      category path x.path < category path y.path ∨
        category path x.path = category path y.path ∧ Path.le x.path y.path = true := by
  have hsublist := select_sublist (discover path (.directory entries)) requests
  rw [NameMap.members, List.pairwise_flatMap]
  constructor
  · intro e he
    have hmem := hsublist.subset he
    have hfind := (NameMap.find?_eq_some_iff _).mpr hmem
    refine ((categorizes_discover proper).sorted _ _ hfind).imp_of_mem ?_
    intro x y hx hy hle
    have hcategory := category_of_mem_discover proper hmem hx
    exact .inr ⟨hcategory.trans (category_of_mem_discover proper hmem hy).symm, hle⟩
  · refine (Category.select (discover path (.directory entries)) requests).ascending.imp_of_mem ?_
    intro d e hd he hlt x hx y hy
    left
    rw [category_of_mem_discover proper (hsublist.subset hd) hx,
      category_of_mem_discover proper (hsublist.subset he) hy]
    exact hlt

theorem nodup_members_select (requests : List String) :
    ((Category.select (discover path (.directory entries)) requests).members.map
      fun x => Path.components x.path).Nodup := by
  have hsublist := (select_sublist (discover path (.directory entries)) requests).flatMap (·.2)
  exact (nodup_discover proper).sublist (hsublist.map _)

end Directory

@[simp] theorem selected_empty (requests : List String) :
    (categorized .empty).selected requests = [] := by
  have hentries := List.sublist_nil.mp (select_sublist (.empty : NameMap (List Fixture)) requests)
  rw [selected_categorized, NameMap.members, hentries, List.flatMap_nil]

/-- What is selected at a path is what has to be run. -/
theorem runs_selected {lookup : Lookup} {path : Bytes}
    (hproper : ∀ e, lookup path = .ok e → e.Proper) (requests : List String) :
    Runs lookup path requests ((find lookup path).selected requests) := by
  unfold find
  split
  · next text h => exact .file h
  · next entry hfile h =>
    cases entry with
    | file text => exact absurd rfl (hfile text)
    | device text =>
        rw [discover, selected_empty]
        exact .nothing (by simp [h]) (by simp [h])
    | closed error =>
        rw [discover, selected_empty]
        exact .nothing (by simp [h]) (by simp [h])
    | directory entries =>
        have proper := hproper _ h
        rw [selected_categorized]
        refine .directory h (fun x => mem_members_select_iff proper)
          (nodup_members_select proper requests) (ordered_members_select proper requests) ?_
        intro x hx
        obtain ⟨f, hf, -, rfl⟩ := (mem_members_select_iff proper).mp hx
        exact hf.labelled proper
  · next e h =>
    rw [selected_empty]
    exact .nothing (by simp [h]) (by simp [h])

/-! ## What is told -/

/-- What a message says of a fixture: whether it passed, and its label. -/
def outcome? : Message → Option (Bool × String)
  | .text [⟨.plain, "  "⟩, ⟨.good, "PASS"⟩, ⟨.plain, label⟩] => some (true, label)
  | .text [⟨.plain, "  "⟩, ⟨.bad, "FAIL"⟩, ⟨.plain, label⟩] => some (false, label)
  | _ => none

@[simp] theorem outcome?_entry (r : FixtureResult) :
    outcome? (.text r.entry) = some (r.passed, "  " ++ r.label ++ "\n") := by
  cases h : r.passed <;> simp [FixtureResult.entry, h, outcome?, Piece.plain]

@[simp] theorem outcome?_line (line : String) : outcome? (.line line) = none := by
  simp [Message.line, outcome?]

@[simp] theorem outcome?_verdict (r : TestReport) : outcome? (.text r.verdict) = none := by
  unfold TestReport.verdict
  split <;> simp [outcome?, Piece.plain]

@[simp] theorem outcome?_event (event : Log.Event) : outcome? (.event event) = none :=
  rfl

theorem filterMap_outcome?_messages (g : FixtureGroup) :
    g.messages.filterMap outcome? =
      g.fixtures.map fun x => (x.run.passed, "  " ++ x.run.label ++ "\n") := by
  have hheading (category : String) : outcome? (.text
      [.plain "\n", ⟨.heading, Category.label category⟩, .plain "\n"]) = none := rfl
  rw [List.map_eq_flatMap]
  simp [FixtureGroup.messages, List.filterMap_map, Function.comp_def, hheading,
    List.filterMap_flatMap]

/-- The last line of a report, with the counts. -/
def verdict (passed failed : ℕ) : String :=
  "\ntest result: " ++ (if failed = 0 then "ok" else "FAILED") ++ ". " ++ toString passed
    ++ " passed, " ++ toString failed ++ " failed"
    ++ (if failed = 0 then "\n" else " (of " ++ toString (passed + failed) ++ ")\n")

/-- The lines about a fixture in the section of failures: its path and its reason. -/
def ExplainedBy (x : Fixture) (lines : List String) : Prop :=
  ∃ reason, x.run.failure = some reason ∧
    lines = "" :: ("  --- " ++ x.path.lossy ++ " ---") :: (Text.lines reason.message).map ("  " ++ ·)

def failing (xs : List Fixture) : List Fixture :=
  xs.filter fun x => !x.run.passed

/-- The report about fixtures that are run one after the other: an entry for each, a section that
explains each failure, and the counts; and the exit code. -/
structure Reports (xs : List Fixture) (code : ℕ) (messages : List Message) : Prop where
  entries : messages.filterMap outcome? =
    xs.map fun x => (x.run.passed, "  " ++ x.run.label ++ "\n")
  code_eq_zero_iff : code = 0 ↔ xs ≠ [] ∧ ∀ x ∈ xs, x.run.passed = true
  closing : xs ≠ [] → ∃ before sections passed last,
    messages = before ++ (if failing xs = [] then [] else
      "" :: "failures:" :: sections.flatten).map .line ++ [.text last] ∧
    List.Forall₂ ExplainedBy (failing xs) sections ∧
    passed + (failing xs).length = xs.length ∧
    Terminal.text last = verdict passed (failing xs).length

section Told

variable {xs : List Fixture}

theorem failures_eq (xs : List Fixture) :
    (TestReport.mk (xs.map Fixture.run)).failures = (failing xs).map Fixture.run := by
  simp [TestReport.failures, failing, List.filter_map, Function.comp_def]

theorem passed_add_failing (xs : List Fixture) :
    (TestReport.mk (xs.map Fixture.run)).passed + (failing xs).length = xs.length := by
  have hpassed : (TestReport.mk (xs.map Fixture.run)).passed =
      (xs.filter fun x => x.run.passed).length := by
    simp [TestReport.passed, List.filter_map, Function.comp_def]
  rw [hpassed, failing, ← List.length_append]
  exact (List.filter_append_perm _ xs).length_eq

theorem text_of_three (a b c : Piece) :
    Terminal.text [a, b, c] = a.text ++ (b.text ++ c.text) := by
  simp [Terminal.text, String.join, String.append_assoc]

theorem text_verdict (xs : List Fixture) :
    Terminal.text (TestReport.mk (xs.map Fixture.run)).verdict =
      verdict (TestReport.mk (xs.map Fixture.run)).passed (failing xs).length := by
  have hcount := passed_add_failing xs
  unfold TestReport.verdict verdict
  rw [failures_eq, hcount]
  generalize (TestReport.mk (xs.map Fixture.run)).passed = passed
  by_cases h : failing xs = []
  · simp only [h, List.map_nil, List.isEmpty_nil, List.length_nil, ite_true, text_of_three,
      Piece.plain, String.append_assoc]
  · have hempty : ((failing xs).map Fixture.run).isEmpty = false := by simpa using h
    have hzero : (failing xs).length ≠ 0 := fun hzero => h (List.length_eq_zero_iff.mp hzero)
    simp only [hempty, hzero, List.length_map, ite_false, Bool.false_eq_true, text_of_three,
      Piece.plain, String.append_assoc]

theorem exists_sections (xs : List Fixture) :
    ∃ sections, List.Forall₂ ExplainedBy (failing xs) sections ∧
      (TestReport.mk (xs.map Fixture.run)).failureSection =
        if failing xs = [] then [] else "" :: "failures:" :: sections.flatten := by
  refine ⟨(failing xs).map fun x => x.run.failureLines, ?_, ?_⟩
  · rw [List.forall₂_map_right_iff, List.forall₂_same]
    intro x hx
    have hfailed : x.run.passed = false := by simpa [failing] using (List.mem_filter.mp hx).2
    cases hreason : x.run.failure with
    | none => simp [FixtureResult.passed, hreason] at hfailed
    | some reason => exact ⟨reason, hreason, by simp [FixtureResult.failureLines, hreason]⟩
  · rw [TestReport.failureSection, failures_eq]
    by_cases h : failing xs = []
    · simp [h]
    · simp [h, List.flatMap_def, Function.comp_def]

end Told

/-! ## Runs -/

theorem ne_nil_of_mem_groups {lookup : Lookup} {path : Bytes}
    (hproper : ∀ e, lookup path = .ok e → e.Proper) {requests : List String} {g : FixtureGroup}
    (hg : g ∈ (find lookup path).groups requests) : g.fixtures ≠ [] := by
  unfold find at hg
  split at hg
  · rw [List.mem_singleton.mp hg]
    simp
  · next entry hfile h =>
    obtain ⟨e, he, rfl⟩ := List.mem_map.mp hg
    have hmem := (mem_select_iff.mp he).1
    cases entry with
    | directory entries =>
        exact (categorizes_discover (hproper _ h)).nonempty _ _ ((NameMap.find?_eq_some_iff _).mpr hmem)
    | _ => cases hmem
  · obtain ⟨e, he, -⟩ := List.mem_map.mp hg
    cases (mem_select_iff.mp he).1

theorem selected_eq_nil_iff {s : Suite} {requests : List String}
    (hgroups : ∀ g ∈ s.groups requests, g.fixtures ≠ []) :
    s.selected requests = [] ↔ s.groups requests = [] := by
  rw [selected, List.flatMap_eq_nil_iff]
  constructor
  · intro h
    exact List.eq_nil_iff_forall_not_mem.mpr fun g hg => hgroups g hg (h g hg)
  · intro h
    simp [h]

theorem groups_of_isEmpty {s : Suite} (h : s.isEmpty = true) (requests : List String) :
    s.groups requests = [] := by
  cases s with
  | single fixture => cases h
  | categorized m =>
      have hentries : m.entries = [] := List.isEmpty_iff.mp h
      have hselect := select_sublist m requests
      rw [hentries] at hselect
      rw [groups, List.sublist_nil.mp hselect, List.map_nil]

theorem ofGroups_eq (s : Suite) (requests : List String) :
    TestReport.ofGroups (s.groups requests) = ⟨(s.selected requests).map Fixture.run⟩ := by
  rw [TestReport.ofGroups, selected, List.map_flatMap]
  rfl

theorem exitCode_eq_zero_iff (xs : List Fixture) :
    (TestReport.mk (xs.map Fixture.run)).exitCode = 0 ↔ ∀ x ∈ xs, x.run.passed = true := by
  simp [TestReport.exitCode, failures_eq, failing]

theorem code_run_eq {lookup : Lookup} {path : Bytes} {requests : List String}
    (hgroups : ∀ g ∈ (find lookup path).groups requests, g.fixtures ≠ []) :
    (run lookup path requests).1 = if (find lookup path).selected requests = [] then 1
      else (TestReport.mk (((find lookup path).selected requests).map Fixture.run)).exitCode := by
  have hnil := selected_eq_nil_iff hgroups
  unfold run
  dsimp only
  split
  · next hempty => rw [if_pos (hnil.mpr (groups_of_isEmpty hempty requests))]
  · split
    · next hempty => rw [if_pos (hnil.mpr (List.isEmpty_iff.mp hempty))]
    · next hempty => rw [if_neg fun h => hempty (List.isEmpty_iff.mpr (hnil.mp h)), ofGroups_eq]

theorem reports_run {lookup : Lookup} {path : Bytes} {requests : List String}
    (hgroups : ∀ g ∈ (find lookup path).groups requests, g.fixtures ≠ []) :
    Reports ((find lookup path).selected requests) (run lookup path requests).1
      (run lookup path requests).2 := by
  have hnil := selected_eq_nil_iff hgroups
  unfold run
  dsimp only
  split
  · next hempty =>
    rw [hnil.mpr (groups_of_isEmpty hempty requests)]
    refine ⟨?_, by simp, by simp⟩
    simp [nothingFound, List.filterMap_map, Function.comp_def]
  · split
    · next hempty =>
      rw [hnil.mpr (List.isEmpty_iff.mp hempty)]
      refine ⟨?_, by simp, by simp⟩
      simp [List.filterMap_map, Function.comp_def]
    · next hempty =>
      have hne : (find lookup path).selected requests ≠ [] := by
        intro h
        exact hempty (List.isEmpty_iff.mpr (hnil.mp h))
      rw [ofGroups_eq]
      obtain ⟨sections, hsections, hlines⟩ := exists_sections ((find lookup path).selected requests)
      refine ⟨?_, ?_, fun _ => ?_⟩
      · simp [List.filterMap_map, Function.comp_def, List.filterMap_flatMap,
          filterMap_outcome?_messages, selected, List.map_flatMap]
      · rw [exitCode_eq_zero_iff]
        exact (and_iff_right hne).symm
      · rw [hlines]
        exact ⟨_, sections, _, _, rfl, hsections, passed_add_failing _, text_verdict _⟩

end Suite

/-- The program ends with the exit code of the run that it was called for. -/
theorem Program.code_of_check {lookup : Lookup} {environment : Environment}
    {arguments : List String} {invocation : CommandLine.Invocation} {path : String}
    {requests : List String} (hread : CommandLine.read arguments = .ok invocation)
    (htask : invocation.task = .check path requests) :
    (run lookup environment arguments).code = (Suite.run lookup path requests).1 := by
  simp only [run, hread, htask, perform]

namespace Suite

/-- A run reports on what it has to run: each fixture once and in order, with its label; every
failure once and in the order of the entries; the counts; and success exactly if something was run
and all of it passed. The program that was called for it ends with the same exit code. -/
theorem run_reports_selected {lookup : Lookup} {path : Bytes}
    (hproper : ∀ e, lookup path = .ok e → e.Proper) (requests : List String) :
    ∃ xs, Runs lookup path requests xs ∧
      Reports xs (run lookup path requests).1 (run lookup path requests).2 ∧
      ∀ environment arguments invocation operand, CommandLine.read arguments = .ok invocation →
        invocation.task = .check operand requests → Text.encode operand = path →
        (Program.run lookup environment arguments).code = (run lookup path requests).1 := by
  refine ⟨_, runs_selected hproper requests, reports_run ?_, ?_⟩
  · intro g hg
    exact ne_nil_of_mem_groups hproper hg
  · rintro environment arguments invocation operand hread htask rfl
    exact Program.code_of_check hread htask

/-- Two requests for one category, and a third one that nothing answers. -/
theorem run_reports_selected_overlapping :
    let place : FileTree.Place := ⟨[("fx", .directory [("a.test.toml", .file none),
      ("b", .directory [("c", .directory [(".test.toml", .file (some "root = []"))])])])], []⟩
    let lookup := FileTree.lookup place
    let requests := ["b/", "/b/c", "x"]
    (∀ e, lookup "fx" = .ok e → e.Proper) ∧ ∃ xs, Runs lookup "fx" requests xs ∧
      Reports xs (run lookup "fx" requests).1 (run lookup "fx" requests).2 ∧
      (Program.run lookup ⟨fun _ => none, ""⟩
        ["test", "fx", "-c", "b/", "--category=/b/c", "-cx"]).code = (run lookup "fx" requests).1 := by
  intro place lookup requests
  have hproper : ∀ e, lookup "fx" = .ok e → e.Proper :=
    fun e => FileTree.proper_of_lookup (by decide +kernel)
  have hread : CommandLine.read ["test", "fx", "-c", "b/", "--category=/b/c", "-cx"] =
      .ok ⟨true, 0, .check "fx" requests⟩ := by
    decide +kernel
  obtain ⟨xs, hruns, hreports, hcode⟩ := run_reports_selected hproper requests
  exact ⟨hproper, xs, hruns, hreports, hcode _ _ _ _ hread rfl rfl⟩

end Suite

end BlockOutline
