import BlockOutline.Files.Entry
import BlockOutline.Files.Path
import BlockOutline.Outline.Loading
import BlockOutline.Outline.Mismatch

/-!
Fixtures: outline files that say what is expected of them. A fixture passes if its outline loads and
meets every expectation, or if loading fails as it is expected to.
-/

namespace BlockOutline

def fixtureEnding : String := ".test.toml"

/-- What a fixture says about its outline. It can be read where the outline itself is broken. -/
structure FixtureHeader where
  description : Option String := none
  expect : Expectations := {}
deriving Inhabited, Repr, DecidableEq

namespace FixtureHeader

/-- Reads the field of a key; other keys do not matter. -/
def readEntry (h : FixtureHeader) (entry : Toml.Key × Toml.Node) :
    Except SchemaError FixtureHeader := do
  let (key, value) := entry
  match key.name with
  | "description" => return { h with description := some (← readString value) }
  | "expect" => return { h with expect := ← Expectations.read value }
  | _ => return h

def read (document : Toml.Node) : Except SchemaError FixtureHeader :=
  Record.outline.readFields readEntry {} document

def load (source : String) : Except LoadError FixtureHeader := do
  let document ← parseDocument source 0
  (read document).mapError fun e => ⟨.schema e.violation, some e.span, 0⟩

end FixtureHeader

inductive FixtureFailure where
  | unreadable (error : ReadError)
  | header (error : LoadError)
  | otherError (wanted : String) (error : LoadError)
  | noError (wanted : String)
  | unexpectedError (error : LoadError)
  /-- The texts of the expectations that are not met. -/
  | mismatch (report : String)
deriving Inhabited, Repr, DecidableEq

namespace FixtureFailure

def message : FixtureFailure → String
  | unreadable e => "cannot read file: " ++ e.message
  | header e => "fixture header error: " ++ e.message
  | otherError wanted e =>
    "expected load error containing \"" ++ wanted ++ "\", got: " ++ e.message
  | noError wanted =>
    "expected load error containing \"" ++ wanted ++ "\", but loading succeeded"
  | unexpectedError e => "unexpected load error: " ++ e.message
  | mismatch report => report

end FixtureFailure

/-- A fixture file and its text. -/
structure Fixture where
  path : Bytes
  text : Except ReadError String
deriving Inhabited

/-- The outcome of a fixture: it fails for a reason, or it passes. -/
structure FixtureResult where
  path : Bytes
  description : Option String
  failure : Option FixtureFailure
deriving Inhabited, Repr, DecidableEq

namespace FixtureResult

def passed (r : FixtureResult) : Bool :=
  r.failure.isNone

/-- The label of a file: its description, or else its name without the ending, if the name is a text
that ends so. -/
def labelOf (path : Bytes) (description : Option String) : String :=
  description.getD
    ((((Path.fileName? path).bind Bytes.text?).bind (Text.dropEnding? · fixtureEnding)).getD "?")

def label (r : FixtureResult) : String :=
  labelOf r.path r.description

end FixtureResult

namespace Fixture

/-- Compares how an outline loads with what is expected of it. -/
def judge (expect : Expectations) (loaded : Except LoadError Outline) : Option FixtureFailure :=
  match expect.error, loaded with
  | some wanted, .error e =>
    if Text.contains e.message wanted then none else some (.otherError wanted e)
  | some wanted, .ok _ => some (.noError wanted)
  | none, .error e => some (.unexpectedError e)
  | none, .ok o => (expect.report? o.tree).map .mismatch

def run (f : Fixture) : FixtureResult :=
  match f.text with
  | .error e => ⟨f.path, none, some (.unreadable e)⟩
  | .ok source =>
    match FixtureHeader.load source with
    | .error e => ⟨f.path, none, some (.header e)⟩
    | .ok h => ⟨f.path, h.description, judge h.expect (Outline.load source 0)⟩

end Fixture

end BlockOutline
