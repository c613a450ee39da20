import BlockOutline.Text.Pieces
import BlockOutline.Toml.Cursor

/-!
Why a text is no TOML document. An error is a fault at a byte offset; its span is the character
there, or nothing at the end of the text.
-/

namespace BlockOutline.Toml

inductive StringKind where
  | basic
  | literal
  | multilineBasic
  | multilineLiteral
deriving Inhabited, Repr, BEq, DecidableEq

namespace StringKind

def name : StringKind → String
  | basic => "basic string"
  | literal => "literal string"
  | multilineBasic => "multiline basic string"
  | multilineLiteral => "multiline literal string"

end StringKind

/-- What is wrong at a place of a text. -/
inductive Fault where
  | noKey
  | unfinishedKey
  | unfinishedHeader
  | noLineEnd
  | noValue
  | unknownValue
  | unfinishedString (kind : StringKind)
  | unknownEscape
  | invalidCodePoint (digits : Nat)
  | unfinishedArray
  | unfinishedInlineTable
  | integerTooLarge
  | floatTooLarge
  | malformedNumber
  | dateTimeOutOfRange
  | nestedTooDeeply
  /-- A key that is taken; `table` is the path of the table whose lines hold it, if it is known. -/
  | duplicateKey (key : String) (table : Option (List String))
  /-- A header whose last key is taken. -/
  | duplicateTable (key : String) (parents : List String)
  /-- A key that would extend a value that is no table. -/
  | notATable (key : String)
deriving Inhabited, Repr, DecidableEq

namespace Fault

def tableName : List String → String
  | [] => "document root"
  | path => "table `" ++ Text.joined "." path ++ "`"

/-- The wording of a fault; it may take two lines. -/
def message : Fault → String
  | noKey => "invalid key"
  | unfinishedKey => "expected `.`, `=`"
  | unfinishedHeader => "invalid table header\nexpected `.`, `]`"
  | noLineEnd => "expected newline, `#`"
  | noValue => ""
  | unknownValue => "invalid string\nexpected `\"`, `'`"
  | unfinishedString kind => "invalid " ++ kind.name
  | unknownEscape =>
    "invalid escape sequence\nexpected `b`, `f`, `n`, `r`, `t`, `u`, `U`, `\\`, `\"`"
  | invalidCodePoint digits =>
    "invalid unicode " ++ toString digits ++ "-digit hex code\nvalue is out of range"
  | unfinishedArray => "invalid array\nexpected `]`"
  | unfinishedInlineTable => "invalid inline table\nexpected `\x7d`"
  | integerTooLarge => "number too large to fit in target type"
  | floatTooLarge => "invalid floating-point number"
  | malformedNumber => "invalid number"
  | dateTimeOutOfRange => "invalid date-time\nvalue is out of range"
  | nestedTooDeeply => "recursion limit"
  | duplicateKey key none => "duplicate key `" ++ key ++ "`"
  | duplicateKey key (some table) => "duplicate key `" ++ key ++ "` in " ++ tableName table
  | duplicateTable key parents =>
    "invalid table header\nduplicate key `" ++ key ++ "` in " ++ tableName parents
  | notATable key => "dotted key `" ++ key ++ "` attempted to extend a value that is not a table"

end Fault

/-- A fault and the byte offset where it was found. -/
structure SyntaxError where
  fault : Fault
  offset : Nat
deriving Inhabited, Repr, DecidableEq

namespace Cursor

def fail {α : Type} (c : Cursor) (fault : Fault) : Except SyntaxError α :=
  .error ⟨fault, c.offset⟩

/-- The bytes of the character at an offset, counted from a cursor at or before it. -/
def characterAt (offset : Nat) : Cursor → Span
  | ⟨start, []⟩ => ⟨start, start⟩
  | ⟨start, head :: tail⟩ =>
    if offset < start + head.utf8Size then ⟨offset, start + head.utf8Size⟩
    else characterAt offset ⟨start + head.utf8Size, tail⟩
termination_by c => c.rest.length

end Cursor

/-- The bytes that an error points at in its source text. -/
def SyntaxError.span (e : SyntaxError) (source : String) : Span :=
  (Cursor.ofText source).characterAt e.offset

/-- A reader looks at a text from a cursor on. -/
abbrev Reader (α : Type) : Type :=
  (c : Cursor) → Except SyntaxError (Found α c)

end BlockOutline.Toml
