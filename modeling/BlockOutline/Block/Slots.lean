import BlockOutline.Block.Address
import BlockOutline.Block.Walk
import BlockOutline.NameMap

/-!
A collection of independently owned trees, each under a name. A command changes the collection or
fails without changing anything. Copies are trees of their own; only `adopt` moves a tree, from its
name to a place below another one.
-/

namespace BlockOutline

/-- A change to one block that leaves what it has in place and adds at the ends. -/
inductive Mutation (α : Type) where
  | addStatement (statement : α)
  | addStatements (statements : List α)
  | setPrototype (prototype : String)
  | clearPrototype
  | addChild (child : Block α)
deriving Inhabited

/-- The effect of a mutation on the block it is made at. -/
def Mutation.apply {α : Type} : Mutation α → Block α → Block α
  | addStatement s, b => b.addStatement s
  | addStatements ss, b => b.addStatements ss
  | setPrototype p, b => b.setPrototype p
  | clearPrototype, b => b.clearPrototype
  | addChild c, b => b.addChild c

structure Place where
  name : String
  address : List Step
deriving Inhabited, Repr, DecidableEq

/-- Owned trees by name. -/
structure Slots (α : Type) where
  trees : NameMap (Block α)

/-- Why a command on the collection fails. -/
inductive SlotError where
  | noSuchSlot (name : String)
  | noSuchChild (position : Nat)
  | sameSlot (name : String)
deriving Inhabited, Repr, DecidableEq

namespace SlotError

def message : SlotError → String
  | noSuchSlot name => name
  | noSuchChild position => "path element " ++ toString position
  | sameSlot name => name

end SlotError

namespace Slots

variable {α : Type}

def empty : Slots α :=
  ⟨.empty⟩

instance : Inhabited (Slots α) :=
  ⟨empty⟩

def put (s : Slots α) (name : String) (b : Block α) : Slots α :=
  ⟨s.trees.insert name b⟩

def drop (s : Slots α) (name : String) : Slots α :=
  ⟨s.trees.erase name⟩

def tree (s : Slots α) (name : String) : Except SlotError (Block α) :=
  match s.trees.find? name with
  | none => .error (.noSuchSlot name)
  | some b => .ok b

def read (s : Slots α) (place : Place) : Except SlotError (Block α) :=
  match s.tree place.name with
  | .error e => .error e
  | .ok root => (root.locate place.address).mapError .noSuchChild

def change (s : Slots α) (place : Place) (f : Block α → Block α) :
    Except SlotError (Slots α) :=
  match s.tree place.name with
  | .error e => .error e
  | .ok root =>
    match root.updateAt f place.address with
    | .error position => .error (.noSuchChild position)
    | .ok root' => .ok (s.put place.name root')

/-- Moves the tree under a name to the end of the children of a block of another tree. -/
def adopt (s : Slots α) (place : Place) (child : String) : Except SlotError (Slots α) :=
  if child = place.name then .error (.sameSlot place.name)
  else
    match s.read place with
    | .error e => .error e
    | .ok _ =>
      match s.tree child with
      | .error e => .error e
      | .ok moved => (s.drop child).change place (·.addChild moved)

/-- Stores trees under the names that a stem and their index make. -/
def putAll (s : Slots α) (stem : String) (trees : List (Block α)) : Slots α :=
  trees.zipIdx.foldl (fun s (b, i) => s.put (stem ++ toString i) b) s

/-- What can be done to a collection of owned trees. -/
inductive Command (α : Type) where
  | create (name : String) (prototype : Option String)
  | copy (place : Place) (name : String)
  | copyChildren (place : Place) (stem : String)
  | mutate (place : Place) (mutation : Mutation α)
  | adopt (place : Place) (child : String)
  | drop (name : String)

def run (s : Slots α) : Command α → Except SlotError (Slots α)
  | .create name prototype => .ok (s.put name (.leaf prototype))
  | .copy place name =>
    match s.read place with
    | .error e => .error e
    | .ok b => .ok (s.put name b)
  | .copyChildren place stem =>
    match s.read place with
    | .error e => .error e
    | .ok b => .ok (s.putAll stem b.children)
  | .mutate place mutation => s.change place mutation.apply
  | .adopt place child => s.adopt place child
  | .drop name => .ok (s.drop name)

def blockCount (s : Slots α) : Nat :=
  s.trees.entries.foldl (· + ·.2.blockCount) 0

def allStatements (s : Slots α) : List α :=
  s.trees.entries.flatMap (·.2.allStatements)

end Slots

end BlockOutline
