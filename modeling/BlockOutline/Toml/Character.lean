/-!
The classes of characters in TOML.
-/

namespace BlockOutline.Toml

/-- Space or tab. -/
def isBlank (c : Char) : Bool :=
  c = ' ' || c = '\t'

/-- A character of a comment or a string: any but the control characters; the tab is allowed. -/
def isText (c : Char) : Bool :=
  c = '\t' || (' ' ≤ c && c ≠ '\x7f')

def isBare (c : Char) : Bool :=
  c.isAlphanum || c = '_' || c = '-'

def beginsKey (c : Char) : Bool :=
  isBare c || c = '"' || c = '\''

def beginsValue (c : Char) : Bool :=
  c.isDigit || ['"', '\'', '[', '{', '+', '-', '_', '.', 't', 'f', 'i', 'n'].contains c

/-- The length of the line ending that characters begin with; there is none where it is 0. -/
def lineEnding : List Char → Nat
  | '\n' :: _ => 1
  | '\r' :: '\n' :: _ => 2
  | _ => 0

end BlockOutline.Toml
