import BlockOutline.Outline.Reading
import Mathlib.Data.List.Forall2

/-! # The outline schema

Which documents are outlines, and which values they write, said without reading them. A record is
written as a table with its fields as keys, or as an array of its first fields in their order. -/

namespace BlockOutline

open Toml (Node)

def member (entry : Toml.Key × Node) : String × Node :=
  (entry.1.name, entry.2)

/-- The named members of a record: the entries of a table, or the items of an array under the names
of the fields that they stand for. Items behind the last field belong to no field. -/
def Record.members (r : Record) : Node → Option (List (String × Node))
  | .table _ entries => some (entries.map member)
  | .array _ items => some (r.fields.zip items)
  | .scalar _ _ => none

/-! ## Shapes -/

def IsString (node : Node) : Prop :=
  ∃ span text, node = .scalar span (.string text)

def IsNatural (node : Node) : Prop :=
  ∃ span, ∃ value : ℕ, node = .scalar span (.integer value)

/-- An array whose items are all of one shape. -/
inductive IsArrayOf (Shape : Node → Prop) : Node → Prop where
  | intro (span) {items} (h : ∀ item ∈ items, Shape item) : IsArrayOf Shape (.array span items)

mutual

/-- A block of an outline: a record of its fields, keyed or positional. -/
inductive IsBlock : Node → Prop where
  | intro {node members} (record : Record.node.members node = some members)
      (fields : ∀ m ∈ members, IsBlockField m.1 m.2) : IsBlock node

inductive IsBlockField : String → Node → Prop where
  | prototype {value} (h : IsString value) : IsBlockField "prototype" value
  | statements {value} (h : IsArrayOf IsString value) : IsBlockField "statements" value
  | children {value} (h : IsArrayOf IsBlock value) : IsBlockField "children" value

end

inductive IsExpectation : String → Node → Prop where
  | height {value} (h : IsNatural value) : IsExpectation "height" value
  | blockCount {value} (h : IsNatural value) : IsExpectation "total_blocks" value
  | prototypes {value} (h : IsArrayOf IsString value) : IsExpectation "prototypes" value
  | statements {value} (h : IsArrayOf IsString value) : IsExpectation "statements" value
  | error {value} (h : IsString value) : IsExpectation "error" value

inductive IsExpectations : Node → Prop where
  | intro {node members} (record : Record.expectations.members node = some members)
      (fields : ∀ m ∈ members, IsExpectation m.1 m.2) : IsExpectations node

inductive IsOutlineField : String → Node → Prop where
  | description {value} (h : IsString value) : IsOutlineField "description" value
  | root {value} (h : IsBlock value) : IsOutlineField "root" value
  | expect {value} (h : IsExpectations value) : IsOutlineField "expect" value

/-- A document that is an outline: it has known keys only, their values have the right shapes, and
the root is there. -/
inductive IsOutline : Node → Prop where
  | intro (span) {entries} (fields : ∀ entry ∈ entries, IsOutlineField entry.1.name entry.2)
      (root : ∃ entry ∈ entries, entry.1.name = "root") : IsOutline (.table span entries)

/-! ## Written values -/

inductive WritesString : Node → String → Prop where
  | intro (span text) : WritesString (.scalar span (.string text)) text

inductive WritesNatural : Node → ℕ → Prop where
  | intro (span) (value : ℕ) : WritesNatural (.scalar span (.integer value)) value

/-- An array writes one value for each of its items, in order. -/
inductive WritesArray {β : Type} (Writes : Node → β → Prop) : Node → List β → Prop where
  | intro (span) {items values} (h : List.Forall₂ Writes items values) :
      WritesArray Writes (.array span items) values

/-- A list is empty where its field is absent. -/
inductive WritesList {β : Type} (Writes : Node → β → Prop) : Option Node → List β → Prop where
  | absent : WritesList Writes none []
  | given {node values} (h : WritesArray Writes node values) : WritesList Writes (some node) values

/-- A tree as a record writes it; what is absent is missing or empty. -/
inductive WritesBlock : Node → Block String → Prop where
  | intro {node members prototype statements children}
      (record : Record.node.members node = some members)
      (known : ∀ m ∈ members, m.1 ∈ Record.node.fields)
      (hprototype : Option.Rel WritesString (members.lookup "prototype") prototype)
      (hstatements : WritesList WritesString (members.lookup "statements") statements)
      (hchildren : WritesList WritesBlock (members.lookup "children") children) :
      WritesBlock node ⟨prototype, statements, children⟩

inductive WritesExpectations (node : Node) (e : Expectations) : Prop where
  | intro {members} (record : Record.expectations.members node = some members)
      (known : ∀ m ∈ members, m.1 ∈ Record.expectations.fields)
      (height : Option.Rel WritesNatural (members.lookup "height") e.height)
      (blockCount : Option.Rel WritesNatural (members.lookup "total_blocks") e.blockCount)
      (prototypes : Option.Rel (WritesArray WritesString) (members.lookup "prototypes")
        e.prototypes)
      (statements : Option.Rel (WritesArray WritesString) (members.lookup "statements")
        e.statements)
      (error : Option.Rel WritesString (members.lookup "error") e.error)

inductive WritesOutline (document : Node) (o : Outline) : Prop where
  | intro {members root} (record : Record.outline.members document = some members)
      (known : ∀ m ∈ members, m.1 ∈ Record.outline.fields)
      (description : Option.Rel WritesString (members.lookup "description") o.description)
      (found : members.lookup "root" = some root) (root : WritesBlock root o.tree)
      (expect : Option.Rel WritesExpectations (members.lookup "expect") o.expect)

/-! ## The order of keys -/

/-- The same value but for the order of keys in its tables, and for where it stands. -/
inductive SameButOrder : Node → Node → Prop where
  | scalar (span span' value) : SameButOrder (.scalar span value) (.scalar span' value)
  | array (span span') {items items'} (h : List.Forall₂ SameButOrder items items') :
      SameButOrder (.array span items) (.array span' items')
  | table (span span') {entries entries'}
      (keys : (entries.map (·.1.name)).Perm (entries'.map (·.1.name)))
      (values : ∀ entry ∈ entries, ∀ entry' ∈ entries', entry.1.name = entry'.1.name →
        SameButOrder entry.2 entry'.2) :
      SameButOrder (.table span entries) (.table span' entries')

end BlockOutline
