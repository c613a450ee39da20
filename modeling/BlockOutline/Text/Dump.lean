import BlockOutline.Text.Pieces
import BlockOutline.Text.Quoted

/-!
Dumps of values: a value is shown by its constructors, fields and items, either on one line or with
every item on a line of its own, indented by its nesting.
-/

namespace BlockOutline.Text

inductive Dump where
  /-- A text that stands for itself. -/
  | atom (text : String)
  | applied (name : String) (value : Dump)
  | record (name : String) (fields : List (String × Dump))
  | list (items : List Dump)
deriving Inhabited

namespace Dump

mutual

def compact : Dump → String
  | atom text => text
  | applied name value => name ++ "(" ++ compact value ++ ")"
  | record name fields => name ++ " \x7b " ++ joined ", " (compactFields fields) ++ " \x7d"
  | list items => "[" ++ joined ", " (compactAll items) ++ "]"

def compactAll : List Dump → List String
  | [] => []
  | item :: rest => compact item :: compactAll rest

def compactFields : List (String × Dump) → List String
  | [] => []
  | (label, value) :: rest => (label ++ ": " ++ compact value) :: compactFields rest

end

/-- The blanks before a line at a level of nesting. -/
def indentation (level : Nat) : String :=
  String.ofList (List.replicate (4 * level) ' ')

mutual

/-- A dump over several lines; all lines but the first are indented for the given level. -/
def pretty (level : Nat) : Dump → String
  | atom text => text
  | applied name value =>
    name ++ "(\n" ++ indentation (level + 1) ++ pretty (level + 1) value ++ ",\n"
      ++ indentation level ++ ")"
  | record name fields =>
    name ++ " \x7b\n" ++ prettyFields (level + 1) fields ++ indentation level ++ "\x7d"
  | list [] => "[]"
  | list (item :: rest) =>
    "[\n" ++ indentation (level + 1) ++ pretty (level + 1) item ++ ",\n"
      ++ prettyAll (level + 1) rest ++ indentation level ++ "]"

def prettyAll (level : Nat) : List Dump → String
  | [] => ""
  | item :: rest =>
    indentation level ++ pretty level item ++ ",\n" ++ prettyAll level rest

def prettyFields (level : Nat) : List (String × Dump) → String
  | [] => ""
  | (label, value) :: rest =>
    indentation level ++ label ++ ": " ++ pretty level value ++ ",\n" ++ prettyFields level rest

end

end Dump

class ToDump (α : Type) where
  dump : α → Dump

export ToDump (dump)

instance : ToDump String :=
  ⟨fun text => .atom (Quoted.encode text)⟩

instance : ToDump Int :=
  ⟨fun n => .atom (toString n)⟩

instance : ToDump Nat :=
  ⟨fun n => .atom (toString n)⟩

instance : ToDump Bool :=
  ⟨fun b => .atom (if b then "true" else "false")⟩

instance : ToDump Unit :=
  ⟨fun _ => .atom "()"⟩

instance {α : Type} [ToDump α] : ToDump (Option α) where
  dump
    | none => .atom "None"
    | some value => .applied "Some" (dump value)

instance {α : Type} [ToDump α] : ToDump (List α) :=
  ⟨fun items => .list (items.map dump)⟩

end BlockOutline.Text
