import BlockOutline.Block.Dump
import BlockOutline.Block.Walk

/-!
Listings of a tree: its blocks as indented lines, its prototypes or its statements one a line, or
the dump of the whole tree.
-/

namespace BlockOutline

def listed (lines : List String) : String :=
  String.join (lines.map (· ++ "\n"))

namespace Block

/-- The line of a block in the listing of a tree: two blanks for each level, the shown prototype and
the number of own statements. -/
def treeLine {α : Type} (v : Visit α) : String :=
  String.ofList (List.replicate (2 * v.depth) ' ') ++ displayName v.block.prototype ++ " ("
    ++ counted v.block.statementCount "statement" "statements" ++ ")"

def treeListing {α : Type} (b : Block α) : String :=
  listed (b.visits.map treeLine)

def prototypeListing {α : Type} (b : Block α) : String :=
  listed (b.allPrototypes.map displayName)

def statementListing (b : Block String) : String :=
  listed b.allStatements

def summary {α : Type} (b : Block α) : String :=
  listed ["blocks: " ++ toString b.blockCount, "height: " ++ toString b.height,
    "statements: " ++ toString b.allStatements.length]

end Block

structure Listing where
  prototypes : Bool := false
  statements : Bool := false
  tree : Bool := false
  dump : Bool := false
deriving Inhabited, Repr, BEq, DecidableEq

namespace Listing

/-- The wanted listings of a tree. A dump stands alone, and without any wish there is a summary. -/
def text (l : Listing) (b : Block String) : String :=
  if l.dump then listed [b.prettyDump]
  else if l.prototypes || l.statements || l.tree then
    (if l.prototypes then b.prototypeListing else "")
      ++ (if l.statements then b.statementListing else "")
      ++ (if l.tree then b.treeListing else "")
  else b.summary

end Listing

end BlockOutline
