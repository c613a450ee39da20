import BlockOutline.Fixture.Suite
import BlockOutline.Terminal.Message

/-!
Reports about test runs. Every fixture of the selected groups is run once; the report shows the
result of each in its group, then the reasons of the failures, then the counts.
-/

namespace BlockOutline

open Terminal Log

namespace Outline

def loadedEvent (o : Outline) (file : Nat) : Event :=
  ⟨.debug, "codeblock::outline", "loaded outline",
    [("file_id", toString file), ("top_level_children", toString o.root.children.length)]⟩

def loadEvents (loaded : Except LoadError Outline) (file : Nat) : List Event :=
  match loaded with
  | .ok o => [o.loadedEvent file]
  | .error _ => []

end Outline

namespace Fixture

/-- Where the events of test runs come from. -/
def logTarget : String := "codeblock::test_runner"

def builtEvent (tree : Block String) : Event :=
  ⟨.trace, logTarget, "built tree",
    [("blocks", toString tree.blockCount), ("height", toString tree.height)]⟩

def events (f : Fixture) : List Event :=
  ⟨.debug, logTarget, "running fixture", [("path", f.path.lossy)]⟩ ::
    match f.text with
    | .error _ => []
    | .ok source =>
      match FixtureHeader.load source with
      | .error _ => []
      | .ok header =>
        let loaded := Outline.load source 0
        Outline.loadEvents loaded 0 ++
          match header.expect.error, loaded with
          | none, .ok o => [builtEvent o.tree]
          | _, _ => []

end Fixture

namespace FixtureResult

def entry (r : FixtureResult) : List Piece :=
  [.plain "  ", if r.passed then ⟨.good, "PASS"⟩ else ⟨.bad, "FAIL"⟩,
    .plain ("  " ++ r.label ++ "\n")]

/-- The part about a result in the section of failures: the path and the lines of the reason. -/
def failureLines (r : FixtureResult) : List String :=
  ["", "  --- " ++ r.path.lossy ++ " ---"] ++
    match r.failure with
    | some failure => (Text.lines failure.message).map ("  " ++ ·)
    | none => []

end FixtureResult

namespace FixtureGroup

def results (g : FixtureGroup) : List FixtureResult :=
  g.fixtures.map Fixture.run

/-- What is told while the fixtures of a group run. -/
def messages (g : FixtureGroup) : List Message :=
  (g.category.toList.map fun category =>
      .text [.plain "\n", ⟨.heading, Category.label category⟩, .plain "\n"])
    ++ g.fixtures.flatMap fun f => f.events.map .event ++ [.text f.run.entry]

end FixtureGroup

/-- The results of a test run, in the order in which the fixtures were run. -/
structure TestReport where
  results : List FixtureResult
deriving Inhabited, Repr, DecidableEq

namespace TestReport

/-- The report about some groups. -/
def ofGroups (groups : List FixtureGroup) : TestReport :=
  ⟨groups.flatMap FixtureGroup.results⟩

def passed (r : TestReport) : Nat :=
  (r.results.filter FixtureResult.passed).length

def failures (r : TestReport) : List FixtureResult :=
  r.results.filter fun result => !result.passed

def failureSection (r : TestReport) : List String :=
  if r.failures.isEmpty then []
  else ["", "failures:"] ++ r.failures.flatMap FixtureResult.failureLines

/-- The last line, with the counts. -/
def verdict (r : TestReport) : List Piece :=
  let passed := toString r.passed ++ " passed, "
  let failed := toString r.failures.length ++ " failed"
  if r.failures.isEmpty then
    [.plain "\ntest result: ", ⟨.good, "ok"⟩, .plain (". " ++ passed ++ failed ++ "\n")]
  else
    [.plain "\ntest result: ", ⟨.bad, "FAILED"⟩,
      .plain (". " ++ passed ++ failed ++ " (of " ++ toString r.results.length ++ ")\n")]

def exitCode (r : TestReport) : Nat :=
  if r.failures.isEmpty then 0 else 1

end TestReport

namespace Suite

/-- The directories that are passed over in the search for fixtures at a path. -/
def skipped (lookup : Lookup) (path : Bytes) : List Bytes :=
  match lookup path with
  | .ok (.file _) => []
  | .ok (.directory entries) => Fixture.skipped path entries
  | .ok (.device _) | .ok (.closed _) | .error _ => [path]

def events (lookup : Lookup) (path : Bytes) : List Event :=
  (skipped lookup path).map fun directory =>
    ⟨.debug, Fixture.logTarget, "skipping unreadable directory", [("dir", directory.lossy)]⟩

/-- What is told where no fixture is found. -/
def nothingFound (path : Bytes) : Message :=
  .line ("no " ++ fixtureEnding ++ " files found in " ++ path.lossy)

/-- Runs the requested fixtures at a path: the exit code, and all that is told. -/
def run (lookup : Lookup) (path : Bytes) (requests : List String) : Nat × List Message :=
  let suite := find lookup path
  let early := (events lookup path).map .event
  if suite.isEmpty then (1, early ++ [nothingFound path])
  else
    let groups := suite.groups requests
    let told := early ++ (suite.warnings requests).map .line
    if groups.isEmpty then (1, told ++ [.line "no matching categories found"])
    else
      let report := TestReport.ofGroups groups
      (report.exitCode,
        told ++ groups.flatMap FixtureGroup.messages
          ++ report.failureSection.map .line ++ [.text report.verdict])

def list (lookup : Lookup) (path : Bytes) : List Message :=
  (events lookup path).map .event ++
    match find lookup path with
    | single _ => [.line "(single file, no categories)"]
    | categorized categories =>
      if categories.isEmpty then [nothingFound path]
      else
        .line "available categories:" :: categories.entries.map fun (category, fixtures) =>
          .line ("  " ++ Category.label category ++ " (" ++ toString fixtures.length ++ " tests)")

end Suite

end BlockOutline
