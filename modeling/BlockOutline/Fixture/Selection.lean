import BlockOutline.NameMap
import BlockOutline.Text.Pieces

/-!
Selecting categories by name. A request selects the category of its name and all categories below
it.
-/

namespace BlockOutline

namespace Category

def label (category : String) : String :=
  if category = "" then "(root)" else category

def plain (request : String) : String :=
  Text.trim '/' request

def selects (name category : String) : Bool :=
  category = name || Text.beginsWith category (name ++ "/")

/-- The categories that some request selects; without a request, all of them. -/
def select {α : Type} (all : NameMap α) (requests : List String) : NameMap α :=
  if requests.isEmpty then all
  else all.filter fun category _ => requests.any fun request => selects (plain request) category

def unknown {α : Type} (all : NameMap α) (requests : List String) : List String :=
  (requests.map plain).filter fun name => !all.names.any (selects name)

def warning {α : Type} (all : NameMap α) (name : String) : String :=
  "warning: category '" ++ name ++ "' not found (available: "
    ++ Text.joined ", " (all.names.map label) ++ ")"

end Category

end BlockOutline
