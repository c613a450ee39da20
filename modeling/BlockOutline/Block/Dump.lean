import BlockOutline.Block
import BlockOutline.Text.Dump

/-!
The dump of a block shows its three fields, and so the whole tree below it.
-/

namespace BlockOutline.Block

open Text

variable {α : Type} [ToDump α]

mutual

def toDump : Block α → Dump
  | ⟨prototype, statements, children⟩ =>
    .record "CodeBlock" [
      ("prototype", dump prototype),
      ("statements", dump statements),
      ("children", .list (toDumpAll children))]

def toDumpAll : List (Block α) → List Dump
  | [] => []
  | b :: rest => toDump b :: toDumpAll rest

end

instance : ToDump (Block α) :=
  ⟨toDump⟩

def compactDump (b : Block α) : String :=
  (toDump b).compact

def prettyDump (b : Block α) : String :=
  (toDump b).pretty 0

end BlockOutline.Block
