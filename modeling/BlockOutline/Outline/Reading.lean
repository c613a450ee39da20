import BlockOutline.Outline
import BlockOutline.Outline.Violation

/-!
Outlines in documents. A document is read depth first and in the order of its keys, and the first
violation is reported. A record may be a table with its fields as keys, or an array that gives the
fields in their order.
-/

namespace BlockOutline

open Toml (Node Key Span)

/-- A record that documents can hold: its name, and its fields in order. -/
structure Record where
  name : String
  fields : List String
deriving Inhabited, Repr, DecidableEq

namespace Record

def outline : Record :=
  ⟨"OutlineFile", ["description", "root", "expect"]⟩

def node : Record :=
  ⟨"OutlineNode", ["prototype", "statements", "children"]⟩

def expectations : Record :=
  ⟨"Expectations", ["height", "total_blocks", "prototypes", "statements", "error"]⟩

/-- The key that stands for the whole of a date where a record is wanted. -/
def dateTimeKey : String := "$__toml_private_datetime"

def unknown {α : Type} (r : Record) (key : Key) : Except SchemaError α :=
  .error ⟨.unknownField key.name r.fields, key.span⟩

def mismatch {α : Type} (r : Record) (span : Span) : Toml.Scalar → Except SchemaError α
  | .dateTime _ => r.unknown ⟨dateTimeKey, span⟩
  | value => .error ⟨.wrongType (.ofNode (.scalar span value)) (.record r.name), span⟩

/-- The values of a record with the keys that they belong to, in reading order. -/
def entries (r : Record) : Node → Except SchemaError (List (Key × Node))
  | .table _ entries => .ok entries
  | .array _ items =>
    .ok ((r.fields.zip items).map fun (field, item) => (⟨field, item.span⟩, item))
  | .scalar span value => r.mismatch span value

/-- Reads a record: its values one after the other, each into the field of its key. -/
def readFields {σ : Type} (r : Record) (readEntry : σ → Key × Node → Except SchemaError σ)
    (start : σ) (node : Node) : Except SchemaError σ := do
  (← r.entries node).foldlM readEntry start

end Record

def wrongType {α : Type} (node : Node) (wanted : Wanted) : Except SchemaError α :=
  .error ⟨.wrongType (.ofNode node) wanted, node.span⟩

def readString : Node → Except SchemaError String
  | .scalar _ (.string text) => .ok text
  | node => wrongType node .string

def readNatural : Node → Except SchemaError Nat
  | .scalar span (.integer value) =>
    if value < 0 then .error ⟨.negative value, span⟩ else .ok value.toNat
  | node => wrongType node .natural

def readStrings : Node → Except SchemaError (List String)
  | .array _ items => items.mapM readString
  | node => wrongType node .sequence

namespace OutlineNode

mutual

def read : Node → Except SchemaError OutlineNode
  | .table _ entries => readEntries entries {}
  | .array _ items => readItems items
  | .scalar span value => Record.node.mismatch span value

def readEntries : List (Key × Node) → OutlineNode → Except SchemaError OutlineNode
  | [], node => .ok node
  | entry :: rest, node => do
    let next ← readEntry node entry
    readEntries rest next

def readEntry (node : OutlineNode) : Key × Node → Except SchemaError OutlineNode
  | (key, value) =>
    match key.name with
    | "prototype" => do
      return { node with prototype := some (← readString value) }
    | "statements" => do
      return { node with statements := ← readStrings value }
    | "children" => do
      return { node with children := ← readChildren value }
    | _ => Record.node.unknown key

def readItems : List Node → Except SchemaError OutlineNode
  | [] => .ok {}
  | [prototype] => do
    return { prototype := some (← readString prototype) }
  | [prototype, statements] => do
    return { prototype := some (← readString prototype), statements := ← readStrings statements }
  | prototype :: statements :: children :: _ => do
    return ⟨some (← readString prototype), ← readStrings statements, ← readChildren children⟩

def readChildren : Node → Except SchemaError (List OutlineNode)
  | .array _ items => readAll items
  | .table span entries => wrongType (.table span entries) .sequence
  | .scalar span value => wrongType (.scalar span value) .sequence

def readAll : List Node → Except SchemaError (List OutlineNode)
  | [] => .ok []
  | item :: rest => do
    let node ← read item
    let nodes ← readAll rest
    pure (node :: nodes)

end

end OutlineNode

namespace Expectations

def readEntry (e : Expectations) (entry : Key × Node) : Except SchemaError Expectations := do
  let (key, value) := entry
  match key.name with
  | "height" => return { e with height := some (← readNatural value) }
  | "total_blocks" => return { e with blockCount := some (← readNatural value) }
  | "prototypes" => return { e with prototypes := some (← readStrings value) }
  | "statements" => return { e with statements := some (← readStrings value) }
  | "error" => return { e with error := some (← readString value) }
  | _ => Record.expectations.unknown key

def read (node : Node) : Except SchemaError Expectations :=
  Record.expectations.readFields readEntry {} node

end Expectations

namespace Outline

structure Parts where
  description : Option String := none
  root : Option OutlineNode := none
  expect : Option Expectations := none
deriving Inhabited, Repr

def readEntry (p : Parts) (entry : Key × Node) : Except SchemaError Parts := do
  let (key, value) := entry
  match key.name with
  | "description" => return { p with description := some (← readString value) }
  | "root" => return { p with root := some (← OutlineNode.read value) }
  | "expect" => return { p with expect := some (← Expectations.read value) }
  | _ => Record.outline.unknown key

/-- The outline that a document holds. Only a document without any violation can lack its root. -/
def read (document : Node) : Except SchemaError Outline := do
  let parts ← Record.outline.readFields readEntry {} document
  match parts.root with
  | some root => pure ⟨parts.description, root, parts.expect⟩
  | none => .error ⟨.missingField "root", document.span⟩

end Outline

end BlockOutline
