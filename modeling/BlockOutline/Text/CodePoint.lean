/-!
Characters by their code points, as hexadecimal digits name them.
-/

namespace BlockOutline.Text

def hexDigit? (c : Char) : Option Nat :=
  if c.isDigit then some (c.toNat - '0'.toNat)
  else if 'a' ≤ c ∧ c ≤ 'f' then some (c.toNat - 'a'.toNat + 10)
  else if 'A' ≤ c ∧ c ≤ 'F' then some (c.toNat - 'A'.toNat + 10)
  else none

def hexValue? : List Char → Option Nat :=
  List.foldl (fun value c => value.bind fun v => (hexDigit? c).map (16 * v + ·)) (some 0)

/-- The character of a code point; surrogates are none. -/
def codePoint? (n : Nat) : Option Char :=
  if h : n.isValidChar then some (Char.ofNatAux n h) else none

/-- The character that a code point in hexadecimal digits names. -/
def namedCharacter? (digits : List Char) : Option Char :=
  (hexValue? digits).bind codePoint?

end BlockOutline.Text
