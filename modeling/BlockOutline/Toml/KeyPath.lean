import BlockOutline.Toml.Node
import BlockOutline.Toml.QuotedText

/-!
Keys: names, bare or in quotes, joined by points.
-/

namespace BlockOutline.Toml

/-- A key of one or more parts. The last part names an entry, those before it lead to its table. -/
structure KeyPath where
  parents : List Key
  last : Key
deriving Inhabited, Repr, BEq, DecidableEq

/-- How deep values may be nested, and how many parts a key may have. -/
def depthLimit : Nat := 79

namespace KeyPath

def keys (path : KeyPath) : List Key :=
  path.parents ++ [path.last]

def names (path : KeyPath) : List String :=
  path.keys.map (·.name)

end KeyPath

def keyPart : Reader Key := fun c =>
  let quoted (kind : StringKind) : Except SyntaxError (Found Key c) := do
    let name ← string kind 1 c
    pure (name.map (⟨·, c.upTo name.after⟩))
  match c.rest with
  | '"' :: _ => quoted .basic
  | '\'' :: _ => quoted .literal
  | rest =>
    let name := rest.takeWhile isBare
    let after := c.skipWhile isBare
    if name.isEmpty then c.fail .noKey
    else .ok ⟨⟨String.ofList name, c.upTo after⟩, after, c.reaches_skipWhile _⟩

/-- A key of any number of parts, and the blanks after it. -/
def keyParts (c : Cursor) : Except SyntaxError (Found KeyPath c) := do
  let part ← keyPart c
  let after := part.after.skipWhile isBlank
  have reaches : c.Reaches after := part.reaches.skipWhile isBlank
  match h : after.rest with
  | '.' :: _ =>
    let next := (after.skip 1).skipWhile isBlank
    have step : (after.skip 1).Reaches next := (after.skip 1).reaches_skipWhile isBlank
    have : next.rest.length < c.rest.length := by
      have one : (after.skip 1).rest.length < after.rest.length := Cursor.length_skip_lt h 0
      exact Nat.lt_of_le_of_lt step.length_le (Nat.lt_of_lt_of_le one reaches.length_le)
    let more ← keyParts next
    pure ((more.map fun path => ⟨part.value :: path.parents, path.last⟩).since
      ((reaches.skip 1).trans step))
  | _ => pure ⟨⟨[], part.value⟩, after, reaches⟩
termination_by c.rest.length

/-- A key within the limit, and the blanks after it. -/
def keyPath : Reader KeyPath := fun c => do
  let path ← keyParts c
  if depthLimit < path.value.keys.length then c.fail .nestedTooDeeply else pure path

end BlockOutline.Toml
