import BlockOutline.Log.Pattern

/-!
The values of fields in directives: numbers, and regular expressions.
-/

namespace BlockOutline.Log

def isDecimal (cs : List Char) : Bool :=
  let whole := cs.takeWhile Char.isDigit
  let rest := cs.drop whole.length
  let (fraction, power) :=
    match rest with
    | '.' :: more => (more.takeWhile Char.isDigit, more.dropWhile Char.isDigit)
    | _ => ([], rest)
  let digits :=
    match power with
    | _ :: '+' :: more | _ :: '-' :: more => more
    | _ => power.drop 1
  ¬(whole.isEmpty ∧ fraction.isEmpty)
    ∧ (power.isEmpty
      ∨ (power.head?.any (· ∈ ['e', 'E']) ∧ ¬digits.isEmpty ∧ digits.all Char.isDigit))

/-- What keeps a text from being the value of a field. Only with a plus sign does a number have to
be told from a regular expression. -/
def fieldValueFault? (cs : List Char) : Option PatternFault :=
  match cs with
  | '+' :: number =>
    if isDecimal number ∨ String.ofList (number.map Char.toLower) ∈ ["inf", "infinity", "nan"] then
      none
    else patternFault? cs
  | _ => patternFault? cs

end BlockOutline.Log
