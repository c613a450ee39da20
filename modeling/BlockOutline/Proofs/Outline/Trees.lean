import BlockOutline.Proofs.Outline.Blocks
import BlockOutline.Proofs.Walk.Metrics

/-! # Outlines and their trees

An outline and its tree are the same thing in two forms: the walk over the tree meets the nodes of the
outline in their order, and every tree is built from exactly one outline. -/

namespace BlockOutline.OutlineNode

/-! ## Nodes in order -/

/-- A node that is nested in another one, with the number of levels between them. -/
structure Nested where
  depth : ℕ
  node : OutlineNode

namespace Nested

def deepen (n : Nested) : Nested :=
  { n with depth := n.depth + 1 }

/-- What an outline says of a node: its depth, and the fields that are its own. -/
def entry (n : Nested) : ℕ × Option String × List String :=
  (n.depth, n.node.prototype, n.node.statements)

/-- The visit of the block that is built from a node. -/
def visit (n : Nested) : Visit String :=
  ⟨n.depth, n.node.build⟩

end Nested

mutual

/-- The nodes of an outline as they are written: a node comes before its children, and these come in
their order. -/
def nodes : OutlineNode → List Nested
  | ⟨prototype, statements, children⟩ =>
    ⟨0, ⟨prototype, statements, children⟩⟩ :: nodesBelow children

def nodesBelow : List OutlineNode → List Nested
  | [] => []
  | node :: rest => (nodes node).map Nested.deepen ++ nodesBelow rest

end

/-- The walk over a tree that is built meets one block for each node. -/
theorem visits_build (node : OutlineNode) : node.build.visits = node.nodes.map Nested.visit := by
  rw [Block.visits_eq_preorder]
  induction node with
  | mk prototype statements children ih =>
      have hbelow : Block.preorderBelow (children.map build) = (nodesBelow children).map Nested.visit := by
        induction children with
        | nil => rfl
        | cons child rest ihs =>
            have hrest := ihs fun c hc => ih c (List.mem_cons_of_mem _ hc)
            rw [List.map_cons, Block.preorderBelow, nodesBelow, List.map_append, hrest,
              ih child List.mem_cons_self, List.map_map, List.map_map]
            rfl
      rw [build_eq, Block.preorder, nodes, List.map_cons, hbelow, Nested.visit, build_eq]

theorem entries_build (node : OutlineNode) :
    node.build.visits.map Visit.entry = node.nodes.map Nested.entry := by
  rw [visits_build, List.map_map]
  refine List.map_congr_left ?_
  intro n _
  simp [Nested.visit, Visit.entry, Nested.entry, build_eq]

theorem blockCount_build (node : OutlineNode) : node.build.blockCount = node.nodes.length := by
  rw [Block.blockCount_eq_size, ← Block.length_preorder, ← Block.visits_eq_preorder, visits_build,
    List.length_map]

/-! ## The outline of a tree -/

mutual

/-- The outline that a tree is built from. -/
def ofTree : Block String → OutlineNode
  | ⟨prototype, statements, children⟩ => ⟨prototype, statements, ofTrees children⟩

def ofTrees : List (Block String) → List OutlineNode
  | [] => []
  | b :: rest => ofTree b :: ofTrees rest

end

theorem build_ofTree (b : Block String) : (ofTree b).build = b := by
  induction b with
  | mk prototype statements children ih =>
      have hchildren : (ofTrees children).map build = children := by
        induction children with
        | nil => rfl
        | cons c cs ihs =>
            have hrest := ihs fun c hc => ih c (List.mem_cons_of_mem _ hc)
            rw [ofTrees, List.map_cons, hrest, ih c List.mem_cons_self]
      rw [ofTree, build_eq, hchildren]

/-- The tree of an outline has one block for each node, met in the order and at the depth of the node
and with what the node says itself. Every tree is built from one outline and from no other, so trees
that are equal come from outlines that are equal. -/
theorem build_mirrors_nodes (node : OutlineNode) :
    node.build.visits.map Visit.entry = node.nodes.map Nested.entry ∧
      node.build.visits = node.nodes.map Nested.visit ∧
      node.build.blockCount = node.nodes.length ∧
      (∀ tree : Block String, ∃! other : OutlineNode, other.build = tree) ∧
      ∀ other : OutlineNode, (node.build == other.build) = true ↔ node = other := by
  refine ⟨entries_build node, visits_build node, blockCount_build node, ?_, ?_⟩
  · intro tree
    refine ⟨ofTree tree, build_ofTree tree, ?_⟩
    intro other hother
    exact build_injective (hother.trans (build_ofTree tree).symm)
  · intro other
    rw [beq_iff_eq]
    exact ⟨build_injective, congrArg build⟩

end BlockOutline.OutlineNode
