import BlockOutline.Toml.Draft

/-!
Values as they are written after a key. Arrays and inline tables hold further values, up to the
nesting limit; the reader of the values inside is handed to the readers of arrays and tables.
-/

namespace BlockOutline.Toml

/-- The place after blanks, line endings and comments. -/
def skipGap (c : Cursor) : { after : Cursor // c.Reaches after } :=
  match h : c.rest with
  | [] => ⟨c, .refl c⟩
  | head :: _ =>
    if isBlank head then
      have := Cursor.length_skip_lt h 0
      let ⟨after, reaches⟩ := skipGap (c.skip 1)
      ⟨after, (c.reaches_skip 1).trans reaches⟩
    else if head = '#' then
      have : ((c.skip 1).skipWhile isText).rest.length < c.rest.length :=
        Nat.lt_of_le_of_lt ((c.skip 1).reaches_skipWhile isText).length_le
          (Cursor.length_skip_lt h 0)
      let ⟨after, reaches⟩ := skipGap ((c.skip 1).skipWhile isText)
      ⟨after, ((c.reaches_skip 1).skipWhile isText).trans reaches⟩
    else
      match lineEnding c.rest with
      | 0 => ⟨c, .refl c⟩
      | length + 1 =>
        have := Cursor.length_skip_lt h length
        let ⟨after, reaches⟩ := skipGap (c.skip (length + 1))
        ⟨after, (c.reaches_skip _).trans reaches⟩
termination_by c.rest.length

/-- A value without parts from what was read of the characters at a cursor. -/
def scalarOf {α : Type} (c : Cursor) (wrap : α → Scalar) :
    Except (Fault × Nat) (α × Nat) → Except SyntaxError (Found Node c)
  | .error (fault, position) => (c.skip position).fail fault
  | .ok (value, length) =>
    .ok ⟨.scalar (c.upTo (c.skip length)) (wrap value), c.skip length, c.reaches_skip _⟩

def Number.scalar : Number → Scalar
  | integer value => .integer value
  | float value => .float value

def numberOrDate : Reader Node := fun c =>
  if beginsDateTime c.rest then scalarOf c .dateTime (readDateTime c.rest)
  else scalarOf c Number.scalar (readNumber c.rest)

/-- A string of any kind, a truth value or a number that is spelled in letters. -/
def word : Reader Node := fun c =>
  match opening? c.rest with
  | some (kind, opening) => do
    let text ← string kind opening c
    pure (text.map fun s => .scalar (c.upTo text.after) (.string s))
  | none =>
    match c.rest with
    | 't' :: 'r' :: 'u' :: 'e' :: _ => scalarOf c .boolean (.ok (true, 4))
    | 'f' :: 'a' :: 'l' :: 's' :: 'e' :: _ => scalarOf c .boolean (.ok (false, 5))
    | 'i' :: 'n' :: 'f' :: _ | 'n' :: 'a' :: 'n' :: _ => numberOrDate c
    | _ => c.fail .unknownValue

/-- The items of an array up to its closing bracket; a comma may follow the last one. -/
def arrayItems (item : Reader Node) (c : Cursor) : Except SyntaxError (Found (List Node) c) := do
  let ⟨first, reaches⟩ := skipGap c
  match first.rest with
  | [] => first.fail .unfinishedArray
  | head :: _ =>
    if head = ']' then pure ⟨[], first.skip 1, reaches.skip 1⟩
    else if ¬beginsValue head then first.fail .unfinishedArray
    else
      let found ← item first
      let ⟨after, gap⟩ := skipGap found.after
      have reaches := (reaches.trans found.reaches).trans gap
      match h : after.rest with
      | ',' :: _ =>
        have := Nat.lt_of_lt_of_le (Cursor.length_skip_lt h 0) reaches.length_le
        let more ← arrayItems item (after.skip 1)
        pure ((more.map (found.value :: ·)).since (reaches.skip 1))
      | ']' :: _ => pure ⟨[found.value], after.skip 1, reaches.skip 1⟩
      | _ => after.fail .unfinishedArray
termination_by c.rest.length

structure Assignment where
  offset : Nat
  path : KeyPath
  node : Node
deriving Inhabited, DecidableEq

def assignment (value : Reader Node) : Reader Assignment := fun c => do
  let path ← keyPath c
  match path.after.rest with
  | '=' :: _ =>
    let start := (path.after.skip 1).skipWhile isBlank
    have reaches : c.Reaches start := (path.reaches.skip 1).skipWhile isBlank
    let node ← value start
    pure ⟨⟨c.offset, path.value, node.value⟩, node.after.skipWhile isBlank,
      (reaches.trans node.reaches).skipWhile isBlank⟩
  | _ => path.after.fail .unfinishedKey

/-- The entries of an inline table after its first one up to its closing brace. A comma stands only
between entries. -/
def inlineEntries (value : Reader Node) (c : Cursor) :
    Except SyntaxError (Found (List Assignment) c) := do
  let entry ← assignment value c
  let after := entry.after
  match h : after.rest with
  | ',' :: _ =>
    let next := (after.skip 1).skipWhile isBlank
    have step : (after.skip 1).Reaches next := (after.skip 1).reaches_skipWhile isBlank
    if next.rest.head?.any beginsKey then
      have : next.rest.length < c.rest.length := by
        have one : (after.skip 1).rest.length < after.rest.length := Cursor.length_skip_lt h 0
        exact Nat.lt_of_le_of_lt step.length_le (Nat.lt_of_lt_of_le one entry.reaches.length_le)
      let more ← inlineEntries value next
      pure ((more.map (entry.value :: ·)).since ((entry.reaches.skip 1).trans step))
    else after.fail .unfinishedInlineTable
  | '}' :: _ => pure ⟨[entry.value], after.skip 1, entry.reaches.skip 1⟩
  | _ => after.fail .unfinishedInlineTable
termination_by c.rest.length

def inlineTable (entries : List Assignment) (span : Span) : Except SyntaxError Node :=
  Table.close <$> entries.foldlM (fun t entry => t.assign entry.offset none entry.path entry.node)
    ⟨.written, span, []⟩

/-- A value whose parts, if it has any, are read by another reader. -/
def valueWith (inner : Option (Reader Node)) : Reader Node := fun c =>
  match c.rest with
  | [] => c.fail .noValue
  | '[' :: _ =>
    match inner with
    | none => c.fail .nestedTooDeeply
    | some item => do
      let items ← arrayItems item (c.skip 1)
      pure (items.map (.array (c.upTo items.after))).unskip
  | '{' :: _ =>
    match inner with
    | none => c.fail .nestedTooDeeply
    | some value => do
      let first := (c.skip 1).skipWhile isBlank
      have reaches : c.Reaches first := (c.reaches_skip 1).skipWhile isBlank
      if first.rest.head?.any beginsKey then
        let entries ← inlineEntries value first
        let node ← inlineTable entries.value (c.upTo entries.after)
        pure ⟨node, entries.after, reaches.trans entries.reaches⟩
      else if first.rest.head? = some '}' then
        pure ⟨.table (c.upTo (first.skip 1)) [], first.skip 1, reaches.skip 1⟩
      else first.fail .unfinishedInlineTable
  | head :: _ =>
    if head = '+' || head = '-' || head = '_' || head = '.' || head.isDigit then numberOrDate c
    else word c

/-- A value that is nested no deeper than given. -/
def valueWithin : Nat → Reader Node
  | 0 => valueWith none
  | depth + 1 => valueWith (some (valueWithin depth))

def value : Reader Node :=
  valueWithin depthLimit

end BlockOutline.Toml
