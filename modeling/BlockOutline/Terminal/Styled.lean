/-!
Text for terminals. A text is a list of pieces, each in one style; on a terminal with colours a
style is switched on before a piece and off after it.
-/

namespace BlockOutline.Terminal

inductive Style where
  | plain
  | heading
  | good
  | bad
  /-- The severity of a diagnostic; the message that follows switches it off. -/
  | severity
  | message
  | border
  | label
  | title
  /-- The word that begins advice about a command line. -/
  | problem
  /-- What is typed as it stands. -/
  | literal
  | valid
  | invalid
deriving Inhabited, Repr, BEq, DecidableEq

namespace Style

def reset : String := "\x1b[0m"

/-- What switches a style on. Reports first switch off whatever is on; help and advice do not. -/
def beginning : Style → String
  | plain => ""
  | heading | message => reset ++ "\x1b[1m"
  | good => reset ++ "\x1b[32m"
  | bad | label => reset ++ "\x1b[31m"
  | severity => reset ++ "\x1b[1m\x1b[38;5;9m"
  | border => reset ++ "\x1b[36m"
  | title => "\x1b[1m\x1b[4m"
  | problem => "\x1b[1m\x1b[31m"
  | literal => "\x1b[1m"
  | valid => "\x1b[32m"
  | invalid => "\x1b[33m"

def ending : Style → String
  | plain | severity => ""
  | _ => reset

end Style

structure Piece where
  style : Style
  text : String
deriving Inhabited, Repr, BEq, DecidableEq

namespace Piece

def plain (text : String) : Piece :=
  ⟨.plain, text⟩

def coloured (p : Piece) : String :=
  p.style.beginning ++ p.text ++ p.style.ending

end Piece

def render (colours : Bool) (pieces : List Piece) : String :=
  String.join (pieces.map fun p => if colours then p.coloured else p.text)

def text (pieces : List Piece) : String :=
  String.join (pieces.map (·.text))

end BlockOutline.Terminal
