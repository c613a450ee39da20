import BlockOutline.Text.CodePoint
import BlockOutline.Toml.Character
import BlockOutline.Toml.SyntaxError

/-!
Strings in quotes. The four kinds differ in the quote, in whether a backslash begins an escape, and
in whether line endings may occur; otherwise they are read alike, one character at a time.
-/

namespace BlockOutline.Toml

open Text

namespace StringKind

def quote : StringKind → Char
  | basic | multilineBasic => '"'
  | literal | multilineLiteral => '\''

def hasEscapes : StringKind → Bool
  | basic | multilineBasic => true
  | literal | multilineLiteral => false

def isMultiline : StringKind → Bool
  | basic | literal => false
  | multilineBasic | multilineLiteral => true

end StringKind

/-- The character that an escape stands for and the length of the escape, without its backslash. -/
def escape (rest : List Char) : Except (Fault × Nat) (Char × Nat) :=
  let byCodePoint (count : Nat) : Except (Fault × Nat) (Char × Nat) :=
    let digits := (rest.drop 1).take count
    match if digits.length = count then namedCharacter? digits else none with
    | some c => .ok (c, count + 1)
    | none => .error (.invalidCodePoint count, 1)
  match rest with
  | 'b' :: _ => .ok ('\x08', 1)
  | 'f' :: _ => .ok ('\x0c', 1)
  | 'n' :: _ => .ok ('\n', 1)
  | 'r' :: _ => .ok ('\r', 1)
  | 't' :: _ => .ok ('\t', 1)
  | '"' :: _ => .ok ('"', 1)
  | '\\' :: _ => .ok ('\\', 1)
  | 'u' :: _ => byCodePoint 4
  | 'U' :: _ => byCodePoint 8
  | _ => .error (.unknownEscape, 1)

/-- The length of the blanks and line endings that characters begin with. -/
def whiteLength : List Char → Nat
  | '\r' :: '\n' :: rest => whiteLength rest + 2
  | c :: rest => if isBlank c || c = '\n' then whiteLength rest + 1 else 0
  | [] => 0

/-- A backslash at the end of a line joins it to the next text: how much to skip after it. -/
def lineJoin? (rest : List Char) : Option Nat :=
  let blanks := (rest.takeWhile isBlank).length
  if lineEnding (rest.drop blanks) = 0 then none else some (whiteLength rest)

/-- How many quotes a run of three or more quotes gives to the text; the last three end it. -/
def extraQuotes (run : Nat) : Nat :=
  min (run - 3) 2

/-- The text of a string after its opening quotes, and the place after its closing ones. -/
def quotedText (kind : StringKind) (c : Cursor) : Except SyntaxError (Found (List Char) c) :=
  let goOn (count : Nat) (shorter : (c.skip count).rest.length < c.rest.length)
      (text : List Char) : Except SyntaxError (Found (List Char) c) := do
    have := shorter
    let more ← quotedText kind (c.skip count)
    pure (more.map (text ++ ·)).unskip
  match h : c.rest with
  | [] => c.fail (.unfinishedString kind)
  | head :: tail =>
    if head = kind.quote then
      if kind.isMultiline then
        let run := (c.rest.takeWhile (· = head)).length
        if run < 3 then goOn 1 (c.length_skip_lt h 0) [head]
        else
          pure ⟨List.replicate (extraQuotes run) head, c.skip (extraQuotes run + 3),
            c.reaches_skip _⟩
      else pure ⟨[], c.skip 1, c.reaches_skip 1⟩
    else if head = '\\' && kind.hasEscapes then
      match if kind.isMultiline then lineJoin? tail else none with
      | some count => goOn (count + 1) (c.length_skip_lt h count) []
      | none =>
        match escape tail with
        | .ok (character, count) => goOn (count + 1) (c.length_skip_lt h count) [character]
        | .error (fault, count) => (c.skip (count + 1)).fail fault
    else if isText head then goOn 1 (c.length_skip_lt h 0) [head]
    else
      match kind.isMultiline, lineEnding c.rest with
      | true, length + 1 => goOn (length + 1) (c.length_skip_lt h length) ['\n']
      | _, _ => c.fail (.unfinishedString kind)
termination_by c.rest.length

/-- The kind of string that characters begin with, and the length of its opening: a line ending
right after three quotes belongs to it. -/
def opening? : List Char → Option (StringKind × Nat)
  | '"' :: '"' :: '"' :: rest => some (.multilineBasic, lineEnding rest + 3)
  | '\'' :: '\'' :: '\'' :: rest => some (.multilineLiteral, lineEnding rest + 3)
  | '"' :: _ => some (.basic, 1)
  | '\'' :: _ => some (.literal, 1)
  | _ => none

/-- A string in quotes of a known kind, from its opening on. -/
def string (kind : StringKind) (opening : Nat) : Reader String := fun c => do
  let text ← quotedText kind (c.skip opening)
  pure (text.map String.ofList).unskip

end BlockOutline.Toml
