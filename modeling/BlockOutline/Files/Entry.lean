import BlockOutline.Text.Encoding

/-!
Files and directories as a program sees them: links are followed, and what cannot be read shows as
an error.
-/

namespace BlockOutline

inductive ReadError where
  | notFound
  | notADirectory
  | isADirectory
  | nameTooLong
  | tooManyLinks
  | permissionDenied
  | notText
deriving Inhabited, Repr, BEq, DecidableEq

def ReadError.message : ReadError → String
  | notFound => "No such file or directory (os error 2)"
  | notADirectory => "Not a directory (os error 20)"
  | isADirectory => "Is a directory (os error 21)"
  | nameTooLong => "File name too long (os error 36)"
  | tooManyLinks => "Too many levels of symbolic links (os error 40)"
  | permissionDenied => "Permission denied (os error 13)"
  | notText => "stream did not contain valid UTF-8"

/-- What is found at a path: a directory with its entries, a file with its text, or a device with
the text that is read from it. -/
inductive Entry where
  | file (text : Except ReadError String)
  | device (text : String)
  | directory (entries : List (Bytes × Entry))
  /-- A directory whose entries may not be listed. -/
  | closed (error : ReadError)
deriving Inhabited

namespace Entry

def read : Entry → Except ReadError String
  | file text => text
  | device text => .ok text
  | directory _ => .error .isADirectory
  | closed e => .error e

def isDirectory : Entry → Bool
  | directory _ | closed _ => true
  | file _ | device _ => false

end Entry

/-- Finds what is at a path. -/
abbrev Lookup : Type :=
  Bytes → Except ReadError Entry

end BlockOutline
