import BlockOutline.Number.Binary64
import BlockOutline.Text.CodePoint
import BlockOutline.Toml.Character
import BlockOutline.Toml.DateTime

/-!
Numbers. A number is the longest beginning of the characters that is one; what follows it is the
concern of the reader.
-/

namespace BlockOutline.Toml

open Text

inductive Number where
  | integer (value : Int)
  | float (value : Binary64)
deriving Inhabited, Repr, BEq, DecidableEq

/-- The length of a run of digits; single underscores may stand between them. -/
def runLength (test : Char → Bool) : (afterDigit : Bool) → List Char → Nat
  | _, [] => 0
  | afterDigit, c :: rest =>
    if test c then runLength test true rest + 1
    else if c = '_' && afterDigit && rest.head?.any test then runLength test false rest + 1
    else 0

/-- The value of a run of digits in a base. -/
def runValue (base : Nat) (run : List Char) : Nat :=
  run.foldl (fun value c => (hexDigit? c).elim value (base * value + ·)) 0

/-- The base that a marker after a zero selects, and its digits. -/
def base? : Char → Option (Nat × (Char → Bool))
  | 'x' => some (16, fun c => (hexDigit? c).isSome)
  | 'o' => some (8, fun c => '0' ≤ c && c ≤ '7')
  | 'b' => some (2, fun c => c = '0' || c = '1')
  | _ => none

/-- Bounds an integer to 64 bits with sign. -/
def boundedInteger (value : Int) : Except (Fault × Nat) Number :=
  if -0x8000000000000000 ≤ value ∧ value ≤ 0x7fffffffffffffff then .ok (.integer value)
  else .error (.integerTooLarge, 0)

/-- Bounds a floating-point number: a finite text does not stand for the positive infinity. -/
def boundedFloat (value : Binary64) : Except (Fault × Nat) Number :=
  if value = .infinity false then .error (.floatTooLarge, 0) else .ok (.float value)

/-- The length of a whole number in decimal digits; a zero stands alone. -/
def wholeLength (cs : List Char) : Nat :=
  if cs.head? = some '0' then 1 else runLength Char.isDigit false cs

/-- The length of a point and the digits after it. -/
def fractionLength : List Char → Nat
  | '.' :: rest =>
    let run := runLength Char.isDigit false rest
    if run = 0 then 0 else run + 1
  | _ => 0

/-- The length of an exponent, with its letter and sign. -/
def exponentLength : List Char → Nat
  | letter :: rest =>
    if letter = 'e' || letter = 'E' then
      let sign := if rest.head?.any (['+', '-'].contains ·) then 1 else 0
      let run := runLength Char.isDigit false (rest.drop sign)
      if run = 0 then 0 else run + sign + 1
    else 0
  | [] => 0

def exponentValue (cs : List Char) : Int :=
  let value : Int := runValue 10 (cs.filter Char.isDigit)
  if cs.contains '-' then -value else value

def special? (negative : Bool) : List Char → Option Number
  | 'i' :: 'n' :: 'f' :: _ => some (.float (.infinity negative))
  | 'n' :: 'a' :: 'n' :: _ => some (.float .nan)
  | _ => none

/-- The value and the length of an integer in a base other than ten. -/
def basedInteger? : List Char → Option (Nat × Nat)
  | '0' :: marker :: rest =>
    (base? marker).bind fun (base, test) =>
      let run := runLength test false rest
      if run = 0 then none else some (runValue base (rest.take run), run + 2)
  | _ => none

/-- A decimal number without its sign: an integer, or a float if it has a fraction or an exponent.
-/
def readDecimal (negative : Bool) (cs : List Char) : Except (Fault × Nat) (Number × Nat) :=
  let whole := wholeLength cs
  let fraction := fractionLength (cs.drop whole)
  let mantissa := whole + fraction
  let exponent := exponentLength (cs.drop mantissa)
  if whole = 0 then .error (.malformedNumber, 0)
  else if fraction = 0 ∧ exponent = 0 then
    let value : Int := runValue 10 (cs.take whole)
    (boundedInteger (if negative then -value else value)).map (·, whole)
  else
    let digits := (cs.take mantissa).filter Char.isDigit
    let places := ((cs.drop whole).take fraction).countP Char.isDigit
    let scale := exponentValue ((cs.drop mantissa).take exponent) - places
    (boundedFloat (.ofDecimal negative (runValue 10 digits) scale)).map (·, mantissa + exponent)

def readNumber (cs : List Char) : Except (Fault × Nat) (Number × Nat) :=
  let sign := if cs.head?.any (['+', '-'].contains ·) then 1 else 0
  let negative := cs.head? = some '-'
  let body := cs.drop sign
  match special? negative body, if sign = 0 then basedInteger? cs else none with
  | some value, _ => .ok (value, sign + 3)
  | none, some (value, length) => (boundedInteger value).map (·, length)
  | none, none => (readDecimal negative body).map fun (value, length) => (value, sign + length)

end BlockOutline.Toml
