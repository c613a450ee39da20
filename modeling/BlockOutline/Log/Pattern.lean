import BlockOutline.Log.Pattern.CharacterClass
import BlockOutline.Text.Alphanumeric

/-!
Regular expressions. An expression is read from left to right: groups have to be closed, a
repetition needs something to repeat, and the parts of an expression lie only so deep within each
other.
-/

namespace BlockOutline.Log

inductive PatternFault where
  | malformed
  /-- It asks for the edges of words in all scripts. -/
  | wordEdge
deriving Inhabited, Repr, BEq, DecidableEq

def PatternFault.message : PatternFault → String
  | malformed => "error building NFA"
  | wordEdge =>
    "unsupported regex feature for DFAs: cannot build DFAs for regexes with Unicode word "
      ++ "boundaries; switch to ASCII word boundaries, or heuristically enable Unicode word "
      ++ "boundaries or use a different regex engine"

/-- What has been read of a group, or of an expression as a whole. -/
structure OpenGroup where
  outside : PatternMode := {}
  /-- The depth of the alternatives before this one. -/
  before : Option Nat := none
  row : PatternRow := {}
  /-- The depth of the last part, if it can be repeated. -/
  last : Option Nat := none
deriving Inhabited, Repr, DecidableEq

namespace OpenGroup

def push (g : OpenGroup) (depth : Nat) : OpenGroup :=
  { g with row := g.row.push depth, last := some depth }

/-- Puts the last part under a repetition. -/
def repeated (g : OpenGroup) (depth : Nat) : OpenGroup :=
  { g with row.deepest := max g.row.deepest (depth + 1), last := some (depth + 1) }

/-- The depth of the finished alternatives together with the present one. -/
def alternatives (g : OpenGroup) : Nat :=
  (g.before.map (max · g.row.depth)).getD g.row.depth

def depth (g : OpenGroup) : Nat :=
  if g.before.isSome then g.alternatives + 1 else g.alternatives

/-- Begins a further alternative. -/
def alternative (g : OpenGroup) : OpenGroup :=
  { g with before := some g.alternatives, row := {}, last := none }

end OpenGroup

/-- What is known while an expression is read. -/
structure PatternReader where
  mode : PatternMode := {}
  group : OpenGroup := {}
  outer : List OpenGroup := []
  names : List String := []
  wordEdges : Bool := false
deriving Inhabited, Repr, DecidableEq

namespace PatternReader

def letters : List Char :=
  ['i', 'm', 's', 'U', 'u', 'R', 'x', '-']

def push (r : PatternReader) (depth : Nat) : PatternReader :=
  { r with group := r.group.push depth }

def symbol (r : PatternReader) (s : Symbol) : Option PatternReader :=
  if s.isAllowed r.mode then
    some { r.push 0 with wordEdges := r.wordEdges || (s = .wordEdge && r.mode.unicode) }
  else none

def enter (r : PatternReader) (mode : PatternMode) : PatternReader :=
  { r with mode, group := { outside := r.mode }, outer := r.group :: r.outer }

def leave (r : PatternReader) : Option PatternReader :=
  match r.outer with
  | [] => none
  | g :: outer =>
    some { r with mode := r.group.outside, group := g.push (r.group.depth + 1), outer }

def isName : List Char → Bool
  | [] => false
  | first :: rest =>
    (first = '_' || Text.isLetter first)
      && rest.all fun c => Text.isAlphanumeric c || c ∈ ['_', '.', '[', ']']

def readName (r : PatternReader) (cs : List Char) : Option (PatternReader × List Char) :=
  let name := cs.takeWhile (· ≠ '>')
  let text := String.ofList name
  match cs.drop name.length with
  | _ :: rest =>
    if isName name ∧ text ∉ r.names then
      some ({ r.enter r.mode with names := text :: r.names }, rest)
    else none
  | [] => none

/-- Reads letters that change the mode, of a group or of what follows. -/
def readLetters (r : PatternReader) (cs : List Char) : Option (PatternReader × List Char) :=
  let given := cs.takeWhile fun c => c ≠ ':' ∧ c ≠ ')'
  let mode := r.mode.apply given
  if ¬given.all (· ∈ letters) ∨ ¬given.Nodup ∨ given.getLast? = some '-' then none
  else
    match cs.drop given.length with
    | [] => none
    | ':' :: rest => some (r.enter mode, rest)
    | _ :: rest =>
      if given.isEmpty then none
      else some ({ r with mode, group := { r.group.push 0 with last := none } }, rest)

/-- Reads the beginning of a group behind its parenthesis. -/
def readGroup (r : PatternReader) (cs : List Char) : Option (PatternReader × List Char) :=
  match r.mode.skip cs with
  | '?' :: 'P' :: '<' :: rest | '?' :: '<' :: rest => r.readName rest
  | '?' :: rest => r.readLetters rest
  | rest => some (r.enter r.mode, rest)

/-- Reads a repetition; a question mark behind its sign belongs to it. -/
def readRepetition (r : PatternReader) (cs : List Char) : Option (PatternReader × List Char) :=
  r.group.last.map fun depth =>
    ({ r with group := r.group.repeated depth },
      match cs with
      | '?' :: rest => rest
      | rest => rest)

/-- Reads a part of an expression that begins with a character. -/
def read (r : PatternReader) (c : Char) (rest : List Char) :
    Option (PatternReader × List Char) := do
  match c with
  | '(' => r.readGroup rest
  | ')' => return (← r.leave, rest)
  | '|' => return ({ r with group := r.group.alternative }, rest)
  | '[' =>
    let (depth, rest) ← CharacterClass.read r.mode rest
    return (r.push depth, rest)
  | '*' | '+' | '?' => r.readRepetition rest
  | '\x7b' => none
  | '\\' =>
    let (s, rest) ← Symbol.readEscape r.mode rest
    return (← r.symbol s, rest)
  | '.' => return (← r.symbol .anyChar, rest)
  | '^' | '$' => return (← r.symbol .anchor, rest)
  | _ => return (← r.symbol (.char c false), rest)

/-- Reads to the end in so many steps at most. -/
def readAll : (steps : Nat) → PatternReader → List Char → Option PatternReader
  | 0, _, _ => none
  | steps + 1, r, cs =>
    match r.mode.skip cs with
    | [] => some r
    | c :: rest => do
      let (r, rest) ← r.read c rest
      readAll steps r rest

end PatternReader

/-- How deep the parts of an expression may lie within each other. -/
def patternDepthLimit : Nat := 250

/-- What keeps a text from being used as a regular expression. -/
def patternFault? (cs : List Char) : Option PatternFault :=
  match PatternReader.readAll (cs.length + 1) {} cs with
  | none => some .malformed
  | some r =>
    if ¬r.outer.isEmpty ∨ patternDepthLimit < r.group.depth then some .malformed
    else if r.wordEdges then some .wordEdge
    else none

end BlockOutline.Log
