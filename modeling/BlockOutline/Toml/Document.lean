import BlockOutline.Toml.Value

/-!
Documents. A document is read line by line; the lines are then put together to one table. A header
opens a table for the lines below it, and the lines above the first header belong to the document
itself.
-/

namespace BlockOutline.Toml

/-- A header: the name of a table, or of the next one of several tables of one name. -/
structure Header where
  isMultiple : Bool
  path : KeyPath
  span : Span
deriving Inhabited, DecidableEq

inductive Line where
  | header (header : Header)
  | assignment (assignment : Assignment)
deriving Inhabited, DecidableEq

def header : Reader Header := fun c => do
  let isMultiple := c.rest[1]? = some '['
  let brackets := if isMultiple then 2 else 1
  let start := (c.skip brackets).skipWhile isBlank
  have reaches : c.Reaches start := (c.reaches_skip brackets).skipWhile isBlank
  let path ← keyPath start
  if (path.after.rest.takeWhile (· = ']')).length < brackets then
    path.after.fail .unfinishedHeader
  else
    let after := path.after.skip brackets
    pure ⟨⟨isMultiple, path.value, c.upTo after⟩, after, (reaches.trans path.reaches).skip _⟩

/-- The place after the blanks and the comment that may end a line. -/
def skipRemark (c : Cursor) : Cursor :=
  let next := c.skipWhile isBlank
  if next.rest.head? = some '#' then (next.skip 1).skipWhile isText else next

theorem reaches_skipRemark (c : Cursor) : c.Reaches (skipRemark c) := by
  have blanks := c.reaches_skipWhile isBlank
  unfold skipRemark
  dsimp only
  split
  · exact (blanks.skip 1).skipWhile isText
  · exact blanks

/-- What a line says from its first character on, if it says something. -/
def lineContent : Reader (Option Line) := fun c =>
  match c.rest with
  | [] | '#' :: _ | '\n' :: _ | '\r' :: '\n' :: _ => pure ⟨none, c, .refl c⟩
  | '[' :: _ => (·.map (some ∘ Line.header)) <$> header c
  | _ => (·.map (some ∘ Line.assignment)) <$> assignment value c

/-- What a line says, if it says something, and the place of its ending. -/
def line : Reader (Option Line) := fun c => do
  let start := c.skipWhile isBlank
  have reaches : c.Reaches start := c.reaches_skipWhile isBlank
  let found ← lineContent start
  let after := skipRemark found.after
  if after.rest ≠ [] ∧ lineEnding after.rest = 0 then after.fail .noLineEnd
  else pure ⟨found.value, after, (reaches.trans found.reaches).trans (reaches_skipRemark _)⟩

/-- The lines of a text up to the first that cannot be read, and why it cannot. -/
def lines (c : Cursor) : List Line × Option SyntaxError :=
  match line c with
  | .error e => ([], some e)
  | .ok found =>
    match h : found.after.rest with
    | [] => (found.value.toList, none)
    | _ :: _ =>
      have := Nat.lt_of_lt_of_le
        (Cursor.length_skip_lt h (lineEnding found.after.rest - 1)) found.reaches.length_le
      let (more, failure) := lines (found.after.skip (lineEnding found.after.rest - 1 + 1))
      (found.value.toList ++ more, failure)
termination_by c.rest.length

/-- Splits lines at their headers: the lines before the first one, and each header with its lines.
-/
def sections : List Line → List Assignment × List (Header × List Assignment)
  | [] => ([], [])
  | .assignment a :: rest =>
    let (first, others) := sections rest
    (a :: first, others)
  | .header h :: rest =>
    let (first, others) := sections rest
    ([], (h, first) :: others)

namespace Table

/-- Puts the lines of a section into its table; the table ends with the last of its values. -/
def fill (path : List String) (assignments : List Assignment) (t : Table) :
    Except SyntaxError Table :=
  assignments.foldlM (fun t a => (extendTo a.node.span.stop) <$>
    t.assign a.offset (some path) a.path a.node) t

/-- Opens the table of a header below the table of its parents, and fills it. A table that headers
have only passed through so far may still be written out; it then counts as new. -/
def openSection (h : Header) (assignments : List Assignment) (t : Table) :
    Except SyntaxError Table :=
  let filled (entries : List (Key × Draft)) : Except SyntaxError Table :=
    fill h.path.names assignments ⟨.written, h.span, entries⟩
  t.descend h.span.start .implied h.path.parents fun parent =>
    match h.isMultiple, parent.find? h.path.last.name with
    | false, none => (parent.put h.path.last ·.draft) <$> filled []
    | false, some (.table .implied _ entries) =>
      (parent.put h.path.last ·.draft) <$> filled entries
    | true, none =>
      (fun last => parent.put h.path.last (.tables [] last.span last.entries)) <$> filled []
    | true, some (.tables finished span entries) => do
      let last ← filled []
      let entries ← change h.path.last (fun _ =>
        pure (.tables (finished ++ [.table span (closeEntries entries)]) last.span last.entries))
        parent.entries
      pure { parent with entries }
    | _, _ =>
      .error ⟨.duplicateTable h.path.last.name (h.path.parents.map (·.name)), h.span.start⟩

end Table

/-- Puts lines together to the table of a document. -/
def assemble (lines : List Line) : Except SyntaxError Node := do
  let (first, others) := sections lines
  let root ← Table.fill [] first ⟨.written, ⟨0, 0⟩, []⟩
  Table.close <$> others.foldlM (fun t (h, assignments) => t.openSection h assignments) root

/-- The start of a text, after a byte order mark. -/
def Cursor.afterMark (c : Cursor) : Cursor :=
  if c.rest.head? = some '\ufeff' then c.skip 1 else c

/-- Reads a document. Of two faults the one in the earlier line counts. -/
def parse (source : String) : Except SyntaxError Node := do
  let (lines, failure) := lines (Cursor.ofText source).afterMark
  let root ← assemble lines
  match failure with
  | some e => .error e
  | none => pure root

end BlockOutline.Toml
