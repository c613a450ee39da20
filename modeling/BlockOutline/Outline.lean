import BlockOutline.Block

/-!
Outlines: descriptions of block trees that can be written down in a file, together with what is
expected of the tree.
-/

namespace BlockOutline

/-- One block of an outline. What is absent is empty. -/
structure OutlineNode where
  prototype : Option String := none
  statements : List String := []
  children : List OutlineNode := []
deriving Inhabited, Repr

/-- Expected properties of a tree. Prototypes and statements are listed depth first, a missing
prototype by its display name. -/
structure Expectations where
  height : Option Nat := none
  blockCount : Option Nat := none
  prototypes : Option (List String) := none
  statements : Option (List String) := none
  /-- Loading is expected to fail with a message that contains this text. -/
  error : Option String := none
deriving Inhabited, Repr, BEq, DecidableEq

structure Outline where
  description : Option String
  root : OutlineNode
  expect : Option Expectations
deriving Inhabited, Repr

namespace OutlineNode

mutual

/-- The tree that an outline describes: one block for each node. -/
def build : OutlineNode → Block String
  | ⟨prototype, statements, children⟩ =>
    buildInto ((Block.leaf prototype).addStatements statements) children

/-- Puts the trees of some nodes behind the children of a block. -/
def buildInto (b : Block String) : List OutlineNode → Block String
  | [] => b
  | node :: rest => buildInto (b.addChild (build node)) rest

end

/-- What holds of an outline as soon as it holds of its children holds of every outline. -/
@[elab_as_elim, induction_eliminator]
theorem induction {motive : OutlineNode → Prop}
    (mk : ∀ prototype statements children, (∀ c ∈ children, motive c) →
      motive ⟨prototype, statements, children⟩) (node : OutlineNode) : motive node :=
  match node with
  | ⟨prototype, statements, children⟩ =>
    mk prototype statements children fun c _ => induction mk c

theorem buildInto_eq (b : Block String) (nodes : List OutlineNode) :
    buildInto b nodes = ⟨b.prototype, b.statements, b.children ++ nodes.map build⟩ := by
  induction nodes generalizing b with
  | nil => cases b; simp [buildInto]
  | cons node rest ih => simp [buildInto, ih, Block.addChild]

theorem build_eq (node : OutlineNode) :
    node.build = ⟨node.prototype, node.statements, node.children.map build⟩ := by
  obtain ⟨prototype, statements, children⟩ := node
  simp [build, buildInto_eq, Block.leaf, Block.addStatements]

end OutlineNode

def Outline.tree (o : Outline) : Block String :=
  o.root.build

end BlockOutline
