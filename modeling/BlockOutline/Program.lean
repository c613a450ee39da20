import BlockOutline.CommandLine.Reading
import BlockOutline.Fixture.Report
import BlockOutline.Terminal.Control
import BlockOutline.Terminal.Snippet

/-!
The whole program as a function: from its arguments, its environment and the files to its exit code
and all that it writes.
-/

namespace BlockOutline

open Terminal Log CommandLine

/-- What surrounds a program: the variables of its environment, and the time. -/
structure Environment where
  find? : String → Option String
  time : String

namespace Environment

/-- Whether the terminal shows colours, by the environment. -/
def hasColours (e : Environment) : Bool :=
  e.find? "TERM" ∉ [none, some "dumb"] && (e.find? "NO_COLOR").isNone

/-- Whether help and advice are coloured although nobody looks at them on a terminal. -/
def forcesColours (e : Environment) : Bool :=
  let isSet (name : String) : Bool := (e.find? name).any (· ≠ "")
  isSet "CLICOLOR_FORCE" && !isSet "NO_COLOR"

/-- Help and advice as text; without colours no control sequences are left. -/
def write (e : Environment) (pieces : List Piece) : String :=
  let text := Terminal.render true pieces
  if e.forcesColours then text else withoutControls text

/-- The directives of the log, and complaints about those that make no sense. -/
def logFilter (e : Environment) (verbosity : Nat) : Log.Filter × List String :=
  Filter.ofText (Filter.requested (e.find? "CODEBLOCK_LOG") (e.find? "RUST_LOG") verbosity)

/-- How messages are written. Without colours nothing has any; the environment decides about text
alone. -/
def settings (e : Environment) (i : Invocation) : Settings :=
  ⟨i.colours && e.hasColours, i.colours, (e.logFilter i.verbosity).1, e.time⟩

end Environment

structure Output where
  code : Nat
  results : String
  messages : String
deriving Inhabited, Repr, DecidableEq

structure Outcome where
  code : Nat
  results : String
  messages : List Message
deriving Inhabited, Repr

namespace Program

def builtEvent (file : String) (o : Outline) : Event :=
  ⟨.debug, "codeblock", "built block tree",
    [("file", file), ("description", (Text.dump o.description).compact),
      ("has_expectations", (Text.dump o.expect.isSome).compact),
      ("blocks", toString o.tree.blockCount)]⟩

def inspect (lookup : Lookup) (file : String) (listing : Listing) : Outcome :=
  match (lookup file).bind Entry.read with
  | .error e => ⟨1, "", [.line ("error: cannot read '" ++ file ++ "': " ++ e.message)]⟩
  | .ok source =>
    match Outline.load source 0 with
    | .error e => ⟨1, "", [.text (diagnosticPieces e.diagnostic ⟨file, source⟩)]⟩
    | .ok o => ⟨0, listing.text o.tree, [.event (o.loadedEvent 0), .event (builtEvent file o)]⟩

def perform (lookup : Lookup) : Task → Outcome
  | .inspect file listing => inspect lookup file listing
  | .check path categories =>
    let (code, messages) := Suite.run lookup path categories
    ⟨code, "", messages⟩
  | .listCategories path => ⟨0, "", Suite.list lookup path⟩

/-- What is written instead of doing a task. -/
def refuse (environment : Environment) : Refusal → Output
  | .help c => ⟨0, environment.write c.helpText, ""⟩
  | .version => ⟨0, environment.write Command.versionText, ""⟩
  | .nothingGiven => ⟨2, "", environment.write Command.top.helpText⟩
  | .misuse m => ⟨2, "", environment.write m.report⟩

/-- Runs the program on its arguments. -/
def run (lookup : Lookup) (environment : Environment) (arguments : List String) : Output :=
  match CommandLine.read arguments with
  | .error refusal => refuse environment refusal
  | .ok invocation =>
    let outcome := perform lookup invocation.task
    let complaints := listed (environment.logFilter invocation.verbosity).2
    ⟨outcome.code, outcome.results,
      complaints ++ Message.renderAll (environment.settings invocation) outcome.messages⟩

end Program

end BlockOutline
