import BlockOutline.Fixture.Discovery
import BlockOutline.Fixture.Selection

/-!
The fixtures at a path: a file is a single fixture whatever its name, and below a directory there
are the fixtures of its categories.
-/

namespace BlockOutline

inductive Suite where
  | single (fixture : Fixture)
  | categorized (categories : NameMap (List Fixture))

/-- Fixtures that are run under one heading; a single fixture has none. -/
structure FixtureGroup where
  category : Option String
  fixtures : List Fixture
deriving Inhabited

namespace Suite

/-- The fixtures at a path; none where there is nothing. -/
def find (lookup : Lookup) (path : Bytes) : Suite :=
  match lookup path with
  | .ok (.file text) => single ⟨path, text⟩
  | .ok entry => categorized (Fixture.discover path entry)
  | .error _ => categorized .empty

def isEmpty : Suite → Bool
  | single _ => false
  | categorized categories => categories.isEmpty

/-- The groups of the requested categories. A single fixture belongs to every request. -/
def groups (s : Suite) (requests : List String) : List FixtureGroup :=
  match s with
  | single fixture => [⟨none, [fixture]⟩]
  | categorized all =>
    (Category.select all requests).entries.map fun (category, fixtures) =>
      ⟨some category, fixtures⟩

def warnings (s : Suite) (requests : List String) : List String :=
  match s with
  | single _ => []
  | categorized all => (Category.unknown all requests).map (Category.warning all)

end Suite

end BlockOutline
