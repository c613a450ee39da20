import BlockOutline.Toml.SyntaxError

/-!
Dates and times of the proleptic Gregorian calendar, as TOML writes them: a date, a time, a date and
a time, or both with the distance to universal time.
-/

namespace BlockOutline.Toml

structure Date where
  year : Nat
  month : Nat
  day : Nat
deriving Inhabited, Repr, BEq, DecidableEq

/-- A time of day; a minute may have a leap second. -/
structure Time where
  hour : Nat
  minute : Nat
  second : Nat
  fraction : List Char
deriving Inhabited, Repr, BEq, DecidableEq

/-- A date and time; `offset` is the distance to universal time in minutes. -/
structure DateTime where
  date : Option Date
  time : Option Time
  offset : Option Int
deriving Inhabited, Repr, BEq, DecidableEq

def isLeapYear (year : Nat) : Bool :=
  year % 4 = 0 ∧ (year % 100 ≠ 0 ∨ year % 400 = 0)

def daysInMonth (year month : Nat) : Nat :=
  if month = 2 then if isLeapYear year then 29 else 28
  else if [4, 6, 9, 11].contains month then 30
  else 31

def decimalValue (digits : List Char) : Nat :=
  digits.foldl (fun value c => 10 * value + (c.toNat - '0'.toNat)) 0

/-- A number of a fixed count of digits within bounds; a fault has its position. -/
def numberField (cs : List Char) (position count low high : Nat) : Except (Fault × Nat) Nat :=
  let digits := ((cs.drop position).take count).takeWhile Char.isDigit
  let value := decimalValue digits
  if digits.length ≠ count then .error (.malformedNumber, position)
  else if value < low ∨ high < value then .error (.dateTimeOutOfRange, position)
  else .ok value

/-- A character that has to stand at a position. -/
def mark (cs : List Char) (position : Nat) (wanted : Char) : Except (Fault × Nat) Unit :=
  if cs[position]? = some wanted then .ok () else .error (.malformedNumber, position)

/-- Whether as many digits and then a mark begin at a position. -/
def digitsBefore (cs : List Char) (position count : Nat) (wanted : Char) : Bool :=
  (((cs.drop position).take count).takeWhile Char.isDigit).length = count
    ∧ cs[position + count]? = some wanted

def readDate (cs : List Char) : Except (Fault × Nat) Date := do
  let year ← numberField cs 0 4 0 9999
  mark cs 4 '-'
  let month ← numberField cs 5 2 1 12
  mark cs 7 '-'
  let day ← numberField cs 8 2 1 (daysInMonth year month)
  pure ⟨year, month, day⟩

def readTime (cs : List Char) (position : Nat) : Except (Fault × Nat) (Time × Nat) := do
  let hour ← numberField cs position 2 0 23
  mark cs (position + 2) ':'
  let minute ← numberField cs (position + 3) 2 0 59
  mark cs (position + 5) ':'
  let second ← numberField cs (position + 6) 2 0 60
  let fraction := (cs.drop (position + 9)).takeWhile Char.isDigit
  if cs[position + 8]? = some '.' ∧ fraction ≠ [] then
    pure (⟨hour, minute, second, fraction⟩, position + 9 + fraction.length)
  else pure (⟨hour, minute, second, []⟩, position + 8)

/-- The distance to universal time at a position, if one is written, and the position after it. -/
def readOffset (cs : List Char) (position : Nat) : Except (Fault × Nat) (Option Int × Nat) := do
  let distance : Except (Fault × Nat) Nat := do
    let hours ← numberField cs (position + 1) 2 0 23
    mark cs (position + 3) ':'
    let minutes ← numberField cs (position + 4) 2 0 59
    pure (60 * hours + minutes)
  match cs[position]? with
  | some 'Z' | some 'z' => pure (some 0, position + 1)
  | some '+' => return (some (← distance), position + 6)
  | some '-' => return (some (-(← distance)), position + 6)
  | _ => pure (none, position)

/-- Whether characters begin as a date or a time does. -/
def beginsDateTime (cs : List Char) : Bool :=
  digitsBefore cs 0 4 '-' || digitsBefore cs 0 2 ':'

/-- The date, time or both that characters begin with, and their length. -/
def readDateTime (cs : List Char) : Except (Fault × Nat) (DateTime × Nat) := do
  if digitsBefore cs 0 4 '-' then
    let date ← readDate cs
    if cs[10]?.any (['T', 't', ' '].contains ·) ∧ digitsBefore cs 11 2 ':' then
      let (time, afterTime) ← readTime cs 11
      let (offset, after) ← readOffset cs afterTime
      pure (⟨some date, some time, offset⟩, after)
    else pure (⟨some date, none, none⟩, 10)
  else
    let (time, after) ← readTime cs 0
    pure (⟨none, some time, none⟩, after)

end BlockOutline.Toml
