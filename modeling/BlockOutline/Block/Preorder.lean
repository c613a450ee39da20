import BlockOutline.Block

/-!
The depth-first order of a block and all that is nested in it, by recursion on the tree: a block
comes before its children, and the children come in their order. The size, the number of levels and
the flattened prototypes and statements are the recursive counterparts of what a walk collects.
-/

namespace BlockOutline

/-- A block met below another one, with the number of levels between them. -/
structure Visit (α : Type) where
  depth : Nat
  block : Block α
deriving Inhabited, Repr, BEq, DecidableEq

namespace Visit

variable {α : Type}

/-- The children of a visited block, one level further down. -/
def below (v : Visit α) : List (Visit α) :=
  v.block.children.map (⟨v.depth + 1, ·⟩)

/-- What a visit shows of its block: depth, prototype and own statements. -/
def entry (v : Visit α) : Nat × Option String × List α :=
  (v.depth, v.block.prototype, v.block.statements)

/-- The same block, met from further up. -/
def deepen (levels : Nat) (v : Visit α) : Visit α :=
  { v with depth := v.depth + levels }

end Visit

namespace Block

variable {α : Type}

mutual

/-- The blocks of a tree in depth-first order, each with its depth below the root. -/
def preorder : Block α → List (Visit α)
  | ⟨prototype, statements, children⟩ =>
    ⟨0, ⟨prototype, statements, children⟩⟩ :: preorderBelow children

/-- The blocks of the children of a block, one child's tree after the other; seen from the block
they lie one level deeper. -/
def preorderBelow : List (Block α) → List (Visit α)
  | [] => []
  | b :: rest => (preorder b).map (Visit.deepen 1) ++ preorderBelow rest

end

mutual

def size : Block α → Nat
  | ⟨_, _, children⟩ => 1 + sizeAll children

def sizeAll : List (Block α) → Nat
  | [] => 0
  | b :: rest => size b + sizeAll rest

end

mutual

/-- The number of levels of a tree: one for a leaf, one more than the deepest child otherwise. -/
def levels : Block α → Nat
  | ⟨_, _, children⟩ => 1 + levelsAll children

def levelsAll : List (Block α) → Nat
  | [] => 0
  | b :: rest => max (levels b) (levelsAll rest)

end

mutual

/-- The prototype of a block, then those of its children's trees. -/
def prototypesBelow : Block α → List (Option String)
  | ⟨prototype, _, children⟩ => prototype :: prototypesBelowAll children

def prototypesBelowAll : List (Block α) → List (Option String)
  | [] => []
  | b :: rest => prototypesBelow b ++ prototypesBelowAll rest

end

mutual

/-- The statements of a block, then those of its children's trees. -/
def statementsBelow : Block α → List α
  | ⟨_, statements, children⟩ => statements ++ statementsBelowAll children

def statementsBelowAll : List (Block α) → List α
  | [] => []
  | b :: rest => statementsBelow b ++ statementsBelowAll rest

end

theorem preorderBelow_eq_flatMap (bs : List (Block α)) :
    preorderBelow bs = bs.flatMap fun b => b.preorder.map (Visit.deepen 1) := by
  induction bs with
  | nil => rfl
  | cons b bs ih => simp [preorderBelow, ih]

/-- A tree in depth-first order is its root, followed by the trees of its children one level down. -/
theorem preorder_eq (b : Block α) :
    b.preorder = ⟨0, b⟩ :: b.children.flatMap fun c => c.preorder.map (Visit.deepen 1) := by
  rw [← preorderBelow_eq_flatMap]
  cases b; rfl

theorem size_eq (b : Block α) : b.size = 1 + sizeAll b.children := by
  cases b; rfl

theorem sizeAll_append (bs cs : List (Block α)) :
    sizeAll (bs ++ cs) = sizeAll bs + sizeAll cs := by
  induction bs with
  | nil => simp [sizeAll]
  | cons b bs ih => rw [List.cons_append, sizeAll, sizeAll, ih, Nat.add_assoc]

end Block

end BlockOutline
