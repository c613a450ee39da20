import BlockOutline.Outline.Loading
import BlockOutline.Terminal.Styled
import BlockOutline.Text.White
import BlockOutline.Text.Width

/-!
Diagnostics as text. Below its message a diagnostic shows the lines that its label covers, with line
numbers, and marks the covered characters. Of a label over many lines only the first lines and the
last two are shown.
-/

namespace BlockOutline.Terminal

open Text
open Toml (Span)

structure SourceFile where
  name : String
  text : String
deriving Inhabited, Repr

/-- A line of a file: its number from 1, the byte where it starts, its characters up to the line
feed. -/
structure SourceLine where
  number : Nat
  start : Nat
  characters : List Char
deriving Inhabited, Repr

namespace SourceLine

/-- The lines of a text; the last one may be empty. -/
def numbered (number start : Nat) : List (List Char) → List SourceLine
  | [] => []
  | cs :: rest => ⟨number, start, cs⟩ :: numbered (number + 1) (start + byteLength cs + 1) rest

def ofText (text : String) : List SourceLine :=
  numbered 1 0 (splitAt (· = '\n') text.toList)

/-- What is shown of a line: line endings and zero characters at its end are left out. -/
def shown (l : SourceLine) : List Char :=
  (l.characters.reverse.dropWhile fun c => c = '\r' || c = '\x00').reverse

/-- The column of a byte of a line, counted in characters from 1. -/
def column (l : SourceLine) (offset : Nat) : Nat :=
  let cells := measured l.start 0 l.characters
  (cells.filter fun (byte, _, c) => byte + c.utf8Size ≤ offset).length + 1

end SourceLine

/-- The last line that starts at or before an offset. -/
def lineAt (lines : List SourceLine) (offset : Nat) : SourceLine :=
  (lines.takeWhile (·.start ≤ offset)).getLast?.getD default

namespace Snippet

def repeated (count : Nat) (c : Char) : String :=
  String.ofList (List.replicate count c)

def edge (width : Nat) (border : String) : List Piece :=
  [.plain (repeated (width + 1) ' '), ⟨.border, border⟩]

/-- The left edge of a row with a line number, which stands at the right of its field. -/
def numberedEdge (width number : Nat) : List Piece :=
  let digits := toString number
  [⟨.border, repeated (width - digits.length) ' ' ++ digits⟩, .plain " ", ⟨.border, "│"⟩]

/-- A row ends with its line. -/
def row (pieces : List Piece) : List Piece :=
  pieces ++ [.plain "\n"]

def glyph (width : Nat) (c : Char) : List Char :=
  if c = '\t' then List.replicate width ' ' else [c]

/-- The characters of a line with those that a label covers in its style. -/
def sourceText (covers : (byte size : Nat) → Bool) (line : SourceLine) : List Piece :=
  let cells := (measured 0 0 line.shown).map fun (byte, width, c) =>
    (covers byte c.utf8Size, glyph width c)
  let before := cells.takeWhile (¬·.1)
  let covered := (cells.drop before.length).takeWhile (·.1)
  let after := cells.drop (before.length + covered.length)
  let piece (style : Style) (cells : List (Bool × List Char)) : List Piece :=
    if cells.isEmpty then [] else [⟨style, String.ofList (cells.flatMap (·.2))⟩]
  piece .plain before ++ piece .label covered ++ piece .plain after

/-- The width of the characters of a line that start before a byte. -/
def widthBefore (line : SourceLine) (byte : Nat) : Nat :=
  ((measured 0 0 line.shown).filter (·.1 < byte)).foldl (· + ·.2.1) 0

/-- A label within one line, with at least one byte: the line, and carets below it. A label at the
end of a line has a caret behind its last character. -/
def single (width : Nat) (line : SourceLine) (span : Span) : List Piece :=
  let start := span.start - line.start
  let stop := max (span.stop - line.start) (start + 1)
  let covers (byte size : Nat) : Bool := max start byte < min stop (byte + size)
  let cells := (measured 0 0 line.shown).map fun (byte, columns, c) => (byte, columns, c.utf8Size)
  let columns := cells ++ [(byteLength line.shown, 1, 1)]
  let covered := columns.filter fun (byte, _, size) => covers byte size
  let before := columns.filter fun (byte, _, size) => !covers byte size && byte < stop
  let total (cells : List (Nat × Nat × Nat)) : Nat := cells.foldl (· + ·.2.1) 0
  row (numberedEdge width line.number ++ [.plain " "] ++ sourceText covers line)
    ++ row (edge width "│" ++ [.plain (" " ++ repeated (total before) ' ')]
      ++ (if covered.isEmpty then [] else [⟨.label, repeated (total covered) '^'⟩]))

def mark (text : String) : List Piece :=
  [.plain " ", ⟨.label, text⟩]

/-- The first line of a label over several lines. A label that begins the line is marked beside it,
another one below. -/
def top (width : Nat) (line : SourceLine) (start : Nat) : List Piece :=
  let indented := start ≤ byteLength (line.shown.takeWhile isWhite)
  let text := .plain " " :: sourceText (fun byte _ => start ≤ byte) line
  if indented then row (numberedEdge width line.number ++ mark "╭" ++ text)
  else
    row (numberedEdge width line.number ++ [.plain "  "] ++ text)
      ++ row (edge width "│" ++ mark "╭"
        ++ [⟨.label, repeated (widthBefore line (start + 1)) '─' ++ "^"⟩])

/-- A line inside a label. -/
def middle (width : Nat) (line : SourceLine) : List Piece :=
  row (numberedEdge width line.number ++ mark "│"
    ++ .plain " " :: sourceText (fun _ _ => true) line)

/-- The last line of a label over several lines, and the mark below it. -/
def bottom (width : Nat) (line : SourceLine) (stop : Nat) : List Piece :=
  row (numberedEdge width line.number ++ mark "│"
      ++ .plain " " :: sourceText (fun byte size => byte + size ≤ stop) line)
    ++ row (edge width "│" ++ mark "╰"
      ++ [⟨.label, repeated (widthBefore line stop) '─' ++ "^"⟩])

def inside (width : Nat) (lines : List SourceLine) : List Piece :=
  if lines.length ≤ 5 then lines.flatMap (middle width)
  else
    (lines.take 3).flatMap (middle width) ++ row (edge width "·" ++ mark "│")
      ++ (lines.drop (lines.length - 1)).flatMap (middle width)

/-- The lines that a label covers, below the place where it starts. -/
def ofSpan (file : SourceFile) (span : Span) : List Piece :=
  let lines := SourceLine.ofText file.text
  let first := lineAt lines span.start
  let last := lineAt lines span.stop
  let width := (toString last.number).length
  let place := " " ++ file.name ++ ":" ++ toString first.number ++ ":"
    ++ toString (first.column span.start)
  row (edge width "┌─" ++ [.plain place])
    ++ if first.number = last.number then
        row (edge width "│") ++ single width first span
      else
        row (edge width "│" ++ [.plain "  "]) ++ top width first (span.start - first.start)
          ++ inside width
            (lines.filter fun l => first.number < l.number && l.number < last.number)
          ++ bottom width last (span.stop - last.start)

end Snippet

/-- A diagnostic about a file, with an empty line after it. -/
def diagnosticPieces (d : Diagnostic) (file : SourceFile) : List Piece :=
  [⟨.severity, "error"⟩, ⟨.message, ": " ++ d.message⟩, .plain "\n"]
    ++ d.primaryLabels.flatMap (fun label => Snippet.ofSpan file label.span) ++ [.plain "\n"]

end BlockOutline.Terminal
