import BlockOutline.Fixture
import BlockOutline.NameMap

/-!
Finding fixtures. Below a root every fixture file belongs to the category of its directory, which is
named by the path from the root to it.
-/

namespace BlockOutline

namespace Fixture

/-- Whether a name is a text that ends as that of a fixture. -/
def isNamed (name : Bytes) : Bool :=
  name.text?.any fun text => Text.endsWith text fixtureEnding

/-- An entry as a fixture, if it has the name of one. -/
def candidate? (directory name : Bytes) (entry : Entry) : Option Fixture :=
  if isNamed name then some ⟨Path.join directory name, entry.read⟩ else none

/-- The fixtures below a directory; one that may not be listed is passed over. -/
def collect (directory : Bytes) : List (Bytes × Entry) → List Fixture
  | [] => []
  | (name, .directory entries) :: rest =>
    collect (Path.join directory name) entries ++ collect directory rest
  | (_, .closed _) :: rest => collect directory rest
  | (name, entry) :: rest => (candidate? directory name entry).toList ++ collect directory rest

/-- The directories below a directory that may not be listed, in the order in which they are met. -/
def skipped (directory : Bytes) : List (Bytes × Entry) → List Bytes
  | [] => []
  | (name, .directory entries) :: rest =>
    skipped (Path.join directory name) entries ++ skipped directory rest
  | (name, .closed _) :: rest => Path.join directory name :: skipped directory rest
  | _ :: rest => skipped directory rest

/-- The category of a path: the names from the root to its directory, as they are shown. A backslash
in a name counts as a slash. -/
def category (root path : Bytes) : String :=
  match Path.below? root path with
  | none => ""
  | some names => Text.replace '\\' '/' (Path.joined (names.map Component.bytes)).lossy

def sort (fixtures : List Fixture) : List Fixture :=
  fixtures.mergeSort fun a b => Path.le a.path b.path

/-- The fixtures below a root by category, each category sorted. -/
def discover (root : Bytes) (entry : Entry) : NameMap (List Fixture) :=
  match entry with
  | .file _ | .device _ | .closed _ => .empty
  | .directory entries =>
    ((collect root entries).foldl (fun m f => m.append (category root f.path) f)
      NameMap.empty).mapValues sort

end Fixture

end BlockOutline
