import BlockOutline.Number.Binary64

/-!
Shortest decimal texts of floating-point numbers. Each finite number owns the interval of reals that
round to it. Of the decimal numbers in that interval with the fewest digits the nearest one is
written, in positional notation.
-/

namespace BlockOutline.Binary64

/-- The reals that round to a number: from `low / scale` to `high / scale`, with `value / scale` the
number itself. The ends belong to it when `closed`. -/
structure Interval where
  low : Nat
  value : Nat
  high : Nat
  scale : Nat
  closed : Bool
deriving Inhabited, Repr

/-- The interval of a positive number. Below a power of two the neighbour is half as far away. -/
def intervalOf (mantissa : Nat) (exponent : Int) : Interval :=
  let narrow := mantissa = Nat.pow 2 (precision - 1) ∧ minExponent < exponent
  let factor := Nat.pow 2 exponent.toNat
  ⟨(if narrow then 4 * mantissa - 1 else 4 * mantissa - 2) * factor, 4 * mantissa * factor,
    (4 * mantissa + 2) * factor, 4 * Nat.pow 2 (-exponent).toNat, mantissa % 2 = 0⟩

namespace Interval

def contains (i : Interval) (numerator denominator : Nat) : Bool :=
  let n := numerator * i.scale
  if i.closed then i.low * denominator ≤ n ∧ n ≤ i.high * denominator
  else i.low * denominator < n ∧ n < i.high * denominator

/-- The multiple of `10 ^ power` in an interval that is nearest to its value, as the factor. Half
way between two of them the greater one counts. -/
def multiple? (i : Interval) (power : Int) : Option Nat :=
  let up := Nat.pow 10 power.toNat
  let down := Nat.pow 10 (-power).toNat
  let below := i.value * down / (i.scale * up)
  let inside (n : Nat) : Bool := i.contains (n * up) down
  match inside below, inside (below + 1) with
  | true, true =>
    let twice := 2 * i.value * down
    let middle := (2 * below + 1) * i.scale * up
    if twice < middle then some below else some (below + 1)
  | true, false => some below
  | false, true => some (below + 1)
  | false, false => none

/-- The power of ten above the value of an interval: `10 ^ (magnitude - 1) ≤ value < 10 ^
magnitude`. -/
def magnitude (i : Interval) : Int :=
  if i.scale ≤ i.value then digitCount (i.value / i.scale)
  else
    let places := digitCount i.scale - digitCount i.value
    if i.scale ≤ i.value * Nat.pow 10 places then 1 - (places : Int)
    else -(places : Int)

/-- The first power of ten with a multiple in the interval, counting down; the factor is positive.
-/
def firstMultiple (i : Interval) (top : Int) : Nat → Nat × Int
  | 0 => (0, top)
  | steps + 1 =>
    match i.multiple? top with
    | some (n + 1) => (n + 1, top)
    | _ => firstMultiple i (top - 1) steps

end Interval

/-- The shortest decimal number that rounds to a positive number: its digits and their scale. -/
def shortest (mantissa : Nat) (exponent : Int) : Nat × Int :=
  let i := intervalOf mantissa exponent
  i.firstMultiple i.magnitude 19

/-- A decimal number in positional notation, with a point and at least one digit on both sides. -/
def positional (digits : Nat) (scale : Int) : String :=
  if 0 ≤ scale then toString (digits * Nat.pow 10 scale.toNat) ++ ".0"
  else
    let places := (-scale).toNat
    let cs := Nat.toDigits 10 digits
    let padded := List.replicate (places + 1 - cs.length) '0' ++ cs
    String.ofList
      (padded.take (padded.length - places) ++ '.' :: padded.drop (padded.length - places))

def text : Binary64 → String
  | .nan => "NaN"
  | .infinity negative => if negative then "-inf" else "inf"
  | .finite negative 0 _ => if negative then "-0.0" else "0.0"
  | .finite negative mantissa exponent =>
    let (digits, scale) := shortest mantissa exponent
    (if negative then "-" else "") ++ positional digits scale

end BlockOutline.Binary64
