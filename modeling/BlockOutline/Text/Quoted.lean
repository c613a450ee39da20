import BlockOutline.Text.Unprintable

/-!
Quoted texts: a text between double quotes, in which quotes, backslashes and unprintable characters
are written as escapes, so that every quoted text is one line and shows what it holds.
-/

namespace BlockOutline.Text.Quoted

/-- The characters whose escape is a backslash and one letter. -/
def letterEscape? (c : Char) : Option Char :=
  if c = '\x00' then some '0'
  else if c = '\t' then some 't'
  else if c = '\r' then some 'r'
  else if c = '\n' then some 'n'
  else if c = '\\' then some '\\'
  else if c = '"' then some '"'
  else none

/-- The escape of a character by its code point, in lowercase hexadecimal digits. -/
def codePointEscape (c : Char) : List Char :=
  ['\\', 'u', '{'] ++ Nat.toDigits 16 c.toNat ++ ['}']

/-- How a character is written between quotes. -/
def encodeChar (c : Char) : List Char :=
  match letterEscape? c with
  | some letter => ['\\', letter]
  | none => if isUnprintable c then codePointEscape c else [c]

def encode (text : String) : String :=
  String.ofList ('"' :: text.toList.flatMap encodeChar ++ ['"'])

end BlockOutline.Text.Quoted
