import BlockOutline.Outline.Reading
import BlockOutline.Toml.Document

/-!
Loading outlines from text. A text that is no document and a document that is no outline both give
an error that points at bytes of the text.
-/

namespace BlockOutline

/-- Why a text holds no outline. -/
inductive LoadFailure where
  | malformed (fault : Toml.Fault)
  | schema (violation : Violation)
deriving Inhabited, Repr, DecidableEq

/-- An outline that could not be loaded. The span says where in the text, if the reader says so, and
`file` which text that is. -/
structure LoadError where
  failure : LoadFailure
  span : Option Toml.Span
  file : Nat
deriving Inhabited, Repr, DecidableEq

/-- Bytes of a file that a diagnostic points at. -/
structure Label where
  file : Nat
  span : Toml.Span
deriving Inhabited, Repr, DecidableEq

/-- The message of an error for a reader, with the places that it is mainly about. -/
structure Diagnostic where
  message : String
  primaryLabels : List Label
deriving Inhabited, Repr, DecidableEq

def LoadFailure.message : LoadFailure → String
  | malformed fault => fault.message
  | schema violation => violation.message

namespace LoadError

def message (e : LoadError) : String :=
  e.failure.message

def diagnostic (e : LoadError) : Diagnostic :=
  match e.span with
  | some span => ⟨e.message, [⟨e.file, span⟩]⟩
  | none => ⟨e.message, []⟩

end LoadError

def parseDocument (source : String) (file : Nat) : Except LoadError Toml.Node :=
  (Toml.parse source).mapError fun e => ⟨.malformed e.fault, some (e.span source), file⟩

def Outline.load (source : String) (file : Nat) : Except LoadError Outline := do
  let document ← parseDocument source file
  (Outline.read document).mapError fun e => ⟨.schema e.violation, some e.span, file⟩

end BlockOutline
