import BlockOutline.Text.Encoding
import BlockOutline.Text.Pieces

/-!
Paths as bytes. Slashes separate the components of a path; repeated slashes, trailing slashes and
single dots do not matter, except for a dot at the start.
-/

namespace BlockOutline

open Text

def slash : UInt8 := 0x2F

def dot : UInt8 := 0x2E

inductive Component where
  | root
  | current
  | parent
  | name (name : Bytes)
deriving Inhabited, Repr, BEq, DecidableEq

namespace Component

def bytes : Component → Bytes
  | root => [slash]
  | current => [dot]
  | parent => [dot, dot]
  | name n => n

/-- The component that a piece between slashes stands for. -/
def ofPiece (piece : Bytes) : Component :=
  if piece = [] ∨ piece = [dot] then current
  else if piece = [dot, dot] then parent
  else name piece

/-- The order of components: names come last, by their bytes. -/
def before : Component → Component → Bool
  | name a, name b => a < b
  | _, name _ => true
  | name _, _ => false
  | root, root => false
  | root, _ => true
  | current, parent => true
  | _, _ => false

end Component

namespace Path

/-- What stands between the slashes. -/
def pieces (path : Bytes) : List Bytes :=
  splitAt (· = slash) path

def steps (path : Bytes) : List Component :=
  match pieces path with
  | [] :: piece :: pieces => .root :: (piece :: pieces).map Component.ofPiece
  | [[]] => []
  | pieces => pieces.map Component.ofPiece

def components (path : Bytes) : List Component :=
  match steps path with
  | [] => []
  | first :: rest => first :: rest.filter (· ≠ .current)

def fileName? (path : Bytes) : Option Bytes :=
  match (components path).getLast? with
  | some (.name n) => some n
  | _ => none

def join (directory name : Bytes) : Bytes :=
  if directory = [] ∨ directory.getLast? = some slash then directory ++ name
  else directory ++ slash :: name

/-- Names with slashes between them. -/
def joined (names : List Bytes) : Bytes :=
  [slash].intercalate names

/-- Whether a list of components comes before another or is the same one. -/
def atMost : List Component → List Component → Bool
  | [], _ => true
  | _ :: _, [] => false
  | a :: as, b :: bs => if a.before b then true else if a = b then atMost as bs else false

def le (path other : Bytes) : Bool :=
  atMost (components path) (components other)

/-- The names that lead from a root to the directory of a path below it. -/
def below? (root path : Bytes) : Option (List Component) :=
  dropBeginning? (components root) (components path).dropLast

end Path

end BlockOutline
