import BlockOutline.Block.Walk
import BlockOutline.Outline
import BlockOutline.Text.Dump

/-!
Comparing a tree with what is expected of it. Only the expectations that are present count, and
every one that is not met is reported.
-/

namespace BlockOutline

inductive Mismatch where
  | height (expected actual : Nat)
  | blockCount (expected actual : Nat)
  | prototypes (expected actual : List String)
  | statements (expected actual : List String)
deriving Inhabited, Repr, BEq, DecidableEq

namespace Mismatch

def numbers (what : String) (expected actual : Nat) : String :=
  what ++ ": expected " ++ toString expected ++ ", got " ++ toString actual

def lists (what : String) (expected actual : List String) : String :=
  what ++ " mismatch\n  expected: " ++ (Text.dump expected).compact
    ++ "\n  actual:   " ++ (Text.dump actual).compact

def message : Mismatch → String
  | height expected actual => numbers "height" expected actual
  | blockCount expected actual => numbers "total_blocks" expected actual
  | prototypes expected actual => lists "prototypes" expected actual
  | statements expected actual => lists "statements" expected actual

end Mismatch

/-- Every prototype of a tree as it is displayed, depth first. -/
def Block.displayNames {α : Type} (b : Block α) : List String :=
  b.allPrototypes.map Block.displayName

namespace Expectations

/-- The mismatch of a value with an expectation, if there is one. -/
def compare? {α : Type} [DecidableEq α] (mismatch : α → α → Mismatch) (expected : Option α)
    (actual : α) : Option Mismatch :=
  expected.bind fun e => if actual = e then none else some (mismatch e actual)

def mismatches (e : Expectations) (tree : Block String) : List Mismatch :=
  [compare? .height e.height tree.height,
    compare? .blockCount e.blockCount tree.blockCount,
    compare? .prototypes e.prototypes tree.displayNames,
    compare? .statements e.statements tree.allStatements].filterMap id

/-- A text with one section for each expectation that is not met; none if all are. -/
def report? (e : Expectations) (tree : Block String) : Option String :=
  match e.mismatches tree with
  | [] => none
  | mismatches => some (Text.joined "\n" (mismatches.map Mismatch.message))

end Expectations

end BlockOutline
