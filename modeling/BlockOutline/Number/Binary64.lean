/-!
Binary floating-point numbers of 64 bits, and the one nearest to a decimal number. A finite number
is a mantissa times a power of two; the mantissa has at most 53 bits and the exponent is bounded
below. All of it is exact arithmetic on natural numbers.
-/

namespace BlockOutline

/-- A floating-point number: `mantissa * 2 ^ exponent`, an infinity, or no number. -/
inductive Binary64 where
  | finite (negative : Bool) (mantissa : Nat) (exponent : Int)
  | infinity (negative : Bool)
  | nan
deriving Inhabited, Repr, BEq, DecidableEq

namespace Binary64

def precision : Nat := 53

def minExponent : Int := -1074

def maxExponent : Int := 971

/-- The integer nearest to a quotient; of two equally near ones, the even one. -/
def nearestQuotient (numerator denominator : Nat) : Nat :=
  let quotient := numerator / denominator
  let twice := 2 * (numerator % denominator)
  if twice < denominator then quotient
  else if denominator < twice then quotient + 1
  else if quotient % 2 = 0 then quotient
  else quotient + 1

/-- The exponent at which a positive quotient has a mantissa of full precision, or the least one. -/
def exponentOf (numerator denominator : Nat) : Int :=
  let guess : Int := (Nat.log2 numerator : Int) - Nat.log2 denominator - (precision - 1 : Nat)
  let tooHigh :=
    if 0 ≤ guess then numerator < denominator * Nat.pow 2 (precision - 1) * Nat.pow 2 guess.toNat
    else numerator * Nat.pow 2 (-guess).toNat < denominator * Nat.pow 2 (precision - 1)
  max minExponent (if tooHigh then guess - 1 else guess)

def ofQuotient (negative : Bool) (numerator denominator : Nat) : Binary64 :=
  if numerator = 0 then .finite negative 0 minExponent
  else
    let exponent := exponentOf numerator denominator
    let mantissa :=
      if 0 ≤ exponent then nearestQuotient numerator (denominator * Nat.pow 2 exponent.toNat)
      else nearestQuotient (numerator * Nat.pow 2 (-exponent).toNat) denominator
    let (mantissa, exponent) :=
      if mantissa = Nat.pow 2 precision then (Nat.pow 2 (precision - 1), exponent + 1)
      else (mantissa, exponent)
    if maxExponent < exponent then .infinity negative else .finite negative mantissa exponent

def digitCount (n : Nat) : Nat :=
  (Nat.toDigits 10 n).length

/-- The number nearest to `digits * 10 ^ scale`. Scales far out of range are answered at once. -/
def ofDecimal (negative : Bool) (digits : Nat) (scale : Int) : Binary64 :=
  if digits = 0 then .finite negative 0 minExponent
  else if 310 < digitCount digits + scale then .infinity negative
  else if digitCount digits + scale < -330 then .finite negative 0 minExponent
  else if 0 ≤ scale then ofQuotient negative (digits * Nat.pow 10 scale.toNat) 1
  else ofQuotient negative digits (Nat.pow 10 (-scale).toNat)

end Binary64

end BlockOutline
