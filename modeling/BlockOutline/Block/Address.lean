import BlockOutline.Block

/-!
Addresses of blocks inside a tree. An address is a list of steps from a block to one of its
children; it leads to a block, or fails at its first step without a child.
-/

namespace BlockOutline

/-- A step down: to the child with an index, or to the child added last. -/
inductive Step where
  | index (i : Nat)
  | last
deriving Inhabited, Repr, DecidableEq

namespace Step

def position (children : Nat) : Step → Nat
  | index i => i
  | last => children - 1

end Step

namespace Block

variable {α : Type}

def child? (b : Block α) (step : Step) : Option (Block α) :=
  b.children[step.position b.children.length]?

/-- The block at an address, or the position of the first step that leads nowhere. -/
def locate : List Step → Block α → Except Nat (Block α)
  | [], b => .ok b
  | step :: rest, b =>
    match b.child? step with
    | none => .error 0
    | some child => (locate rest child).mapError (· + 1)

/-- Changes the block at an address and nothing else. -/
def updateAt (change : Block α → Block α) : List Step → Block α → Except Nat (Block α)
  | [], b => .ok (change b)
  | step :: rest, b =>
    match b.child? step with
    | none => .error 0
    | some child =>
      match updateAt change rest child with
      | .error position => .error (position + 1)
      | .ok changed =>
        .ok { b with
          children := b.children.set (step.position b.children.length) changed }

end Block

end BlockOutline
