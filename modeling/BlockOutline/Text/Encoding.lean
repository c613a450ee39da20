/-!
Texts as bytes in UTF-8, and bytes as texts. The names of files are bytes and need not be a text; a
text can still be shown for them, with a mark in place of what is no character.
-/

namespace BlockOutline

abbrev Bytes : Type :=
  List UInt8

def Text.encode (text : String) : Bytes :=
  text.toList.flatMap String.utf8EncodeChar

instance : Coe String Bytes :=
  ⟨Text.encode⟩

namespace Bytes

/-- The character that stands at the beginning of some bytes. -/
def firstChar? (bytes : Bytes) : Option Char :=
  (bytes.take 4).toByteArray.utf8DecodeChar? 0

/-- Whether a byte that begins a character of three bytes or more can be followed by another byte. -/
def canFollow (first second : UInt8) : Bool :=
  if first = 0xE0 then 0xA0 ≤ second && second ≤ 0xBF
  else if first = 0xED then 0x80 ≤ second && second ≤ 0x9F
  else if first = 0xF0 then 0x90 ≤ second && second ≤ 0xBF
  else if first = 0xF4 then 0x80 ≤ second && second ≤ 0x8F
  else 0xE1 ≤ first && first ≤ 0xF3 && 0x80 ≤ second && second ≤ 0xBF

/-- How many bytes are taken together where no character begins: as many as could still begin one,
and at least one. -/
def strayLength : Bytes → Nat
  | first :: second :: rest =>
    if canFollow first second then
      if 0xF0 ≤ first && rest.head?.any fun third => 0x80 ≤ third && third ≤ 0xBF then 3 else 2
    else 1
  | _ => 1

/-- Reads characters, with `none` in place of what is no character. The next `skipped` bytes belong to
what was read before. -/
def decodeFrom : (skipped : Nat) → Bytes → List (Option Char)
  | _, [] => []
  | skipped + 1, _ :: rest => decodeFrom skipped rest
  | 0, byte :: rest =>
    match firstChar? (byte :: rest) with
    | some c => some c :: decodeFrom (c.utf8Size - 1) rest
    | none => none :: decodeFrom (strayLength (byte :: rest) - 1) rest

def decode (bytes : Bytes) : List (Option Char) :=
  decodeFrom 0 bytes

/-- What some bytes are shown as. -/
def lossy (bytes : Bytes) : String :=
  String.ofList ((decode bytes).map (·.getD '\uFFFD'))

/-- The text that some bytes are, if they are one. -/
def text? (bytes : Bytes) : Option String :=
  if (decode bytes).all Option.isSome then some (lossy bytes) else none

/-- A character that begins but is not completed, and a byte that no character has. -/
example : lossy [0x61, 0xE2, 0x82, 0xFF, 0x62] = "a\uFFFD\uFFFDb" := by decide +kernel

end Bytes

end BlockOutline
