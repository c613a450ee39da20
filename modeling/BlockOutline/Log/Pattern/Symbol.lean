import BlockOutline.Text.CodePoint
import BlockOutline.Text.White

/-!
The symbols of regular expressions: single characters, and what a backslash begins. A mode says how
they are meant. Letters are told from each other's cases and from other characters in ASCII only,
and no symbol may match a part of a character.
-/

namespace BlockOutline.Log

structure PatternMode where
  caseless : Bool := false
  unicode : Bool := true
  spaced : Bool := false
deriving Inhabited, Repr, DecidableEq

namespace PatternMode

/-- Turns what a letter stands for on or off. -/
def turn (m : PatternMode) (on : Bool) : Char → PatternMode
  | 'i' => { m with caseless := on }
  | 'u' => { m with unicode := on }
  | 'x' => { m with spaced := on }
  | _ => m

/-- Turns letters on; those behind a hyphen are turned off. -/
def apply (m : PatternMode) (letters : List Char) : PatternMode :=
  let on := letters.takeWhile (· ≠ '-')
  (letters.drop on.length).foldl (·.turn false ·) (on.foldl (·.turn true ·) m)

/-- The characters behind white space and comments. A comment reaches to the end of its line. -/
def behindSpace : (comment : Bool) → List Char → List Char
  | _, [] => []
  | true, c :: cs => behindSpace (c ≠ '\n') cs
  | false, c :: cs =>
    if Text.isWhite c then behindSpace false cs
    else if c = '#' then behindSpace true cs
    else c :: cs

/-- The characters behind what does not count. -/
def skip (m : PatternMode) (cs : List Char) : List Char :=
  if m.spaced then behindSpace false cs else cs

/-- The first character that counts. Of a comment only the sign at its start is left out. -/
def next? (m : PatternMode) (cs : List Char) : Option Char :=
  if m.spaced then
    match cs.dropWhile Text.isWhite with
    | '#' :: rest => (rest.dropWhile Text.isWhite).head? <|> cs.head?
    | rest => rest.head? <|> cs.head?
  else cs.head?

end PatternMode

/-- What a character, or a backslash with what belongs to it, stands for. -/
inductive Symbol where
  | char (c : Char) (byte : Bool)
  | anyChar
  | anchor
  | wordEdge
  /-- The digits, the white space or the characters of words, or all others. -/
  | kind (negated : Bool)
deriving Inhabited, Repr, DecidableEq

namespace Symbol

def isAllowed (m : PatternMode) : Symbol → Bool
  | char c byte => if m.unicode then !m.caseless else !byte || c.toNat < 0x80
  | anyChar => m.unicode
  | anchor | wordEdge => true
  | kind negated => !m.unicode && !negated

/-- Whether a symbol can be meant so inside a class. -/
def isAllowedInClass (m : PatternMode) : Symbol → Bool
  | char c _ => if m.unicode then !m.caseless else c.toNat < 0x80
  | kind negated => !m.unicode && !negated
  | _ => false

/-- The control characters that have a letter. -/
def control? : Char → Option Char
  | 'a' => some '\x07'
  | 'f' => some '\x0c'
  | 't' => some '\t'
  | 'n' => some '\n'
  | 'r' => some '\r'
  | 'v' => some '\x0b'
  | _ => none

/-- Some hexadecimal digits, and what follows them. -/
def readDigits (m : PatternMode) : (count : Nat) → List Char → Option (List Char × List Char)
  | 0, cs => some ([], m.skip cs)
  | count + 1, cs =>
    match m.skip cs with
    | [] => none
    | c :: rest => (readDigits m count rest).map fun (digits, rest) => (c :: digits, rest)

/-- The character that so many hexadecimal digits name, and what follows them. -/
def readNamed (m : PatternMode) (count : Nat) (cs : List Char) : Option (Char × List Char) := do
  let (digits, rest) ← readDigits m count cs
  return (← Text.namedCharacter? digits, rest)

/-- What a backslash stands for, and what follows it. Letters without a meaning are reserved, and so
are those for categories of characters. -/
def readEscape (m : PatternMode) : List Char → Option (Symbol × List Char)
  | [] => none
  | c :: rest =>
    match c with
    | 'x' => (readNamed m 2 rest).map fun (c, rest) => (char c true, rest)
    | 'u' => (readNamed m 4 rest).map fun (c, rest) => (char c false, rest)
    | 'U' => (readNamed m 8 rest).map fun (c, rest) => (char c false, rest)
    | 'd' | 's' | 'w' => some (kind false, rest)
    | 'D' | 'S' | 'W' => some (kind true, rest)
    | 'A' | 'z' => some (anchor, rest)
    | 'b' | 'B' | '<' | '>' => some (wordEdge, rest)
    | c =>
      match control? c with
      | some c => some (char c false, rest)
      | none => if c.isAlphanum ∨ 0x80 ≤ c.toNat then none else some (char c false, rest)

end Symbol

end BlockOutline.Log
