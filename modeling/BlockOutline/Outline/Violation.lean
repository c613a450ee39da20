import BlockOutline.Number.Shortest
import BlockOutline.Text.Quoted
import BlockOutline.Toml.Node

/-!
How a document can fail to be an outline. A violation is found at a value or at a key, and its span
shows which.
-/

namespace BlockOutline

inductive ValueKind where
  | integer (value : Int)
  | float (value : Binary64)
  | boolean (value : Bool)
  | string (text : String)
  | sequence
  | map
deriving Inhabited, Repr, DecidableEq

inductive Wanted where
  | string
  | sequence
  | natural
  | record (name : String)
deriving Inhabited, Repr, DecidableEq

inductive Violation where
  | unknownField (name : String) (known : List String)
  | missingField (name : String)
  | wrongType (found : ValueKind) (wanted : Wanted)
  | negative (value : Int)
deriving Inhabited, Repr, DecidableEq

/-- A violation and where it is found. -/
structure SchemaError where
  violation : Violation
  span : Toml.Span
deriving Inhabited, Repr, DecidableEq

namespace ValueKind

def ofNode : Toml.Node → ValueKind
  | .scalar _ (.integer value) => integer value
  | .scalar _ (.float value) => float value
  | .scalar _ (.boolean value) => boolean value
  | .scalar _ (.string text) => string text
  | .scalar _ (.dateTime _) => map
  | .array _ _ => sequence
  | .table _ _ => map

def describe : ValueKind → String
  | integer value => "integer `" ++ toString value ++ "`"
  | float value => "floating point `" ++ value.text ++ "`"
  | boolean value => "boolean `" ++ (if value then "true" else "false") ++ "`"
  | string text => "string " ++ Text.Quoted.encode text
  | sequence => "sequence"
  | map => "map"

end ValueKind

namespace Wanted

def describe : Wanted → String
  | string => "a string"
  | sequence => "a sequence"
  | natural => "usize"
  | record name => "struct " ++ name

end Wanted

namespace Violation

def message : Violation → String
  | unknownField name known =>
    "unknown field `" ++ name ++ "`, expected one of "
      ++ Text.joined ", " (known.map fun field => "`" ++ field ++ "`")
  | missingField name => "missing field `" ++ name ++ "`"
  | wrongType found wanted =>
    "invalid type: " ++ found.describe ++ ", expected " ++ wanted.describe
  | negative value =>
    "invalid value: " ++ (ValueKind.integer value).describe ++ ", expected "
      ++ Wanted.natural.describe

end Violation

end BlockOutline
