import BlockOutline.Block.Preorder
import BlockOutline.Traversal

/-!
A walk over a tree, one block at a time. The walk keeps the blocks still to be met on a stack, the
next one on top; a step takes it off and puts its children there. What a walk still yields is the
depth-first order of the trees it keeps.
-/

namespace BlockOutline

/-- A walk under way: the roots of the subtrees not met yet, the next one on top, that is last. -/
structure Walk (α : Type) where
  stack : Array (Visit α)
deriving Inhabited, Repr, BEq, DecidableEq

namespace Walk

variable {α : Type}

def start (root : Block α) : Walk α :=
  ⟨#[⟨0, root⟩]⟩

/-- Meets the block on top; an exhausted walk meets nothing. The children go onto the stack in
reversed order, so the first child is met next. -/
def next? (w : Walk α) : Option (Visit α × Walk α) :=
  match w.stack.back? with
  | none => none
  | some v => some (v, ⟨w.stack.pop ++ v.below.reverse⟩)

/-- The roots of the subtrees not met yet, next one first. -/
def pending (w : Walk α) : List (Visit α) :=
  w.stack.toList.reverse

@[simp] theorem pending_start (root : Block α) : (start root).pending = [⟨0, root⟩] :=
  rfl

theorem next?_eq_none_iff (w : Walk α) : w.next? = none ↔ w.pending = [] := by
  obtain ⟨⟨stack⟩⟩ := w
  rcases List.eq_nil_or_concat stack with rfl | ⟨rest, top, rfl⟩ <;> simp [next?, pending]

theorem pending_of_next? {w w' : Walk α} {v : Visit α} (h : w.next? = some (v, w')) :
    ∃ rest, w.pending = v :: rest ∧ w'.pending = v.below ++ rest := by
  obtain ⟨⟨stack⟩⟩ := w
  rcases List.eq_nil_or_concat stack with rfl | ⟨rest, top, rfl⟩
  · simp [next?] at h
  · simp only [next?, List.back?_toArray, List.concat_eq_append, List.getLast?_append,
      List.getLast?_singleton, Option.some_or, Option.some.injEq, Prod.mk.injEq] at h
    obtain ⟨rfl, rfl⟩ := h
    exact ⟨rest.reverse, by simp [pending], by simp [pending]⟩

def remaining (w : Walk α) : Nat :=
  Block.sizeAll (w.pending.map Visit.block)

theorem remaining_of_next? {w w' : Walk α} {v : Visit α} (h : w.next? = some (v, w')) :
    w.remaining = w'.remaining + 1 := by
  obtain ⟨rest, before, after⟩ := pending_of_next? h
  have children : v.below.map Visit.block = v.block.children := by
    simp [Visit.below, Function.comp_def]
  rw [remaining, remaining, before, after, List.map_append, children, List.map_cons,
    Block.sizeAll_append, Block.sizeAll, Block.size_eq]
  omega

instance : Traversal (Walk α) (Visit α) where
  next? := next?
  remaining := remaining
  remaining_lt h := by have := remaining_of_next? h; omega

def toList (w : Walk α) : List (Visit α) :=
  Traversal.toList w

def advance (times : Nat) (w : Walk α) : List (Option (Visit α)) × Walk α :=
  Traversal.advance times w

end Walk

/-- A walk that does not tell the depths; a loop over a tree runs through it. -/
structure Iter (α : Type) where
  walk : Walk α
deriving Inhabited, Repr, BEq, DecidableEq

namespace Iter

variable {α : Type}

def start (root : Block α) : Iter α :=
  ⟨.start root⟩

def next? (i : Iter α) : Option (Block α × Iter α) :=
  i.walk.next?.map fun (v, w) => (v.block, ⟨w⟩)

theorem walk_of_next? {i i' : Iter α} {b : Block α} (h : i.next? = some (b, i')) :
    ∃ depth, i.walk.next? = some (⟨depth, b⟩, i'.walk) := by
  obtain ⟨⟨⟨depth, b⟩, w⟩, walk, same⟩ := Option.map_eq_some_iff.mp h
  cases same
  exact ⟨depth, walk⟩

instance : Traversal (Iter α) (Block α) where
  next? := next?
  remaining i := i.walk.remaining
  remaining_lt h := by
    obtain ⟨depth, walk⟩ := walk_of_next? h
    have := Walk.remaining_of_next? walk
    omega

def toList (i : Iter α) : List (Block α) :=
  Traversal.toList i

def advance (times : Nat) (i : Iter α) : List (Option (Block α)) × Iter α :=
  Traversal.advance times i

end Iter

namespace Block

variable {α : Type}

/-- The blocks of a tree as a walk meets them. -/
def visits (b : Block α) : List (Visit α) :=
  (Walk.start b).toList

def blocks (b : Block α) : List (Block α) :=
  (Iter.start b).toList

/-- The number of levels that a walk meets. -/
def height (b : Block α) : Nat :=
  ((b.visits.map (·.depth + 1)).max?).getD 1

/-- The number of blocks that a walk meets. -/
def blockCount (b : Block α) : Nat :=
  b.blocks.length

def allPrototypes (b : Block α) : List (Option String) :=
  b.blocks.map (·.prototype)

def allStatements (b : Block α) : List α :=
  b.blocks.flatMap (·.statements)

end Block

end BlockOutline
