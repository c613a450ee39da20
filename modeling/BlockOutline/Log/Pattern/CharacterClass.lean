import BlockOutline.Log.Pattern.Symbol

/-!
Classes of characters in brackets. A class holds symbols, ranges of characters and further classes,
and double signs combine what stands before and behind them. Of a class only its depth is of
interest.
-/

namespace BlockOutline.Log

/-- How deep the parts of an expression reach that stand side by side. -/
structure PatternRow where
  count : Nat := 0
  deepest : Nat := 0
deriving Inhabited, Repr, DecidableEq

namespace PatternRow

def push (r : PatternRow) (depth : Nat) : PatternRow :=
  ⟨r.count + 1, max r.deepest depth⟩

/-- The depth of a row; a single part is as deep as without it. -/
def depth (r : PatternRow) : Nat :=
  if r.count ≤ 1 then r.deepest else r.deepest + 1

end PatternRow

structure OpenClass where
  /-- The depth of what stands before the last double sign. -/
  before : Option Nat := none
  row : PatternRow := {}
  /-- Whether all was hyphens so far, which stand for themselves there. -/
  fresh : Bool := true
deriving Inhabited, Repr, DecidableEq

namespace OpenClass

def push (o : OpenClass) (depth : Nat) : OpenClass :=
  { o with row := o.row.push depth, fresh := false }

def depth (o : OpenClass) : Nat :=
  match o.before with
  | none => o.row.depth
  | some d => max d o.row.depth + 1

def combine (o : OpenClass) : OpenClass :=
  ⟨some o.depth, {}, false⟩

end OpenClass

namespace CharacterClass

def names : List String :=
  ["alnum", "alpha", "ascii", "blank", "cntrl", "digit", "graph", "lower", "print", "punct",
    "space", "upper", "word", "xdigit"]

/-- Whether a class with a name can be meant so. -/
def isAllowed (m : PatternMode) (negated : Bool) : Bool :=
  if m.unicode then !m.caseless else !negated

/-- A name between colons and what follows its bracket; whether a circumflex negates it. -/
def readNamed? : List Char → Option (Bool × List Char)
  | ':' :: rest =>
    let negated := rest.head? = some '^'
    let rest := if negated then rest.drop 1 else rest
    let name := rest.takeWhile (· ≠ ':')
    match rest.drop name.length with
    | ':' :: ']' :: rest => if String.ofList name ∈ names then some (negated, rest) else none
    | _ => none
  | _ => none

/-- What follows the opening bracket of a class and the circumflex that may negate it. -/
def afterOpening (m : PatternMode) (cs : List Char) : Option (List Char) :=
  match m.skip cs with
  | '^' :: rest => if m.unicode then some (m.skip rest) else none
  | rest => some rest

def readSymbol (m : PatternMode) : List Char → Option (Symbol × List Char)
  | [] => none
  | '\\' :: rest => Symbol.readEscape m rest
  | c :: rest => some (.char c false, rest)

/-- Reads a symbol or a range. A hyphen makes a range unless it ends the class or is doubled. -/
def readItem (m : PatternMode) (cs : List Char) : Option (List Char) := do
  let (first, rest) ← readSymbol m cs
  guard (first.isAllowedInClass m)
  match m.skip rest with
  | '-' :: rest =>
    if m.next? rest ∈ [some ']', some '-'] then return '-' :: rest
    let (last, rest) ← readSymbol m (m.skip rest)
    guard (last.isAllowedInClass m)
    match first, last with
    | .char c _, .char d _ => if c ≤ d then return rest else none
    | _, _ => none
  | rest => return rest

/-- Reads classes to the end of the outermost one, the innermost one first, in so many steps at
most: the depth of it all, and what follows it. -/
def readOpen (m : PatternMode) : (steps : Nat) → OpenClass → List OpenClass → List Char →
    Option (Nat × List Char)
  | 0, _, _, _ => none
  | steps + 1, o, outer, cs => do
    let symbol (c : Char) (o : OpenClass) (rest : List Char) : Option (Nat × List Char) :=
      if (Symbol.char c false).isAllowedInClass m then readOpen m steps o outer rest else none
    match m.skip cs with
    | [] => none
    | '[' :: rest =>
      match readNamed? rest with
      | some (negated, rest) =>
        guard (isAllowed m negated)
        readOpen m steps (o.push 0) outer rest
      | none => readOpen m steps {} ({ o with fresh := false } :: outer) (← afterOpening m rest)
    | ']' :: rest =>
      if o.fresh ∧ o.row.count = 0 then symbol ']' (o.push 0) rest
      else
        match outer with
        | [] => return (o.depth + 1, rest)
        | p :: outer => readOpen m steps (p.push (o.depth + 1)) outer rest
    | '&' :: '&' :: rest | '~' :: '~' :: rest => readOpen m steps o.combine outer rest
    | '-' :: rest =>
      if o.fresh then symbol '-' { o.push 0 with fresh := true } rest
      else if rest.head? = some '-' then readOpen m steps o.combine outer (rest.drop 1)
      else readOpen m steps (o.push 0) outer (← readItem m ('-' :: rest))
    | rest => readOpen m steps (o.push 0) outer (← readItem m rest)

/-- Reads a class behind its opening bracket: its depth, and what follows it. -/
def read (m : PatternMode) (cs : List Char) : Option (Nat × List Char) := do
  readOpen m (cs.length + 1) {} [] (← afterOpening m cs)

end CharacterClass

end BlockOutline.Log
