import BlockOutline.Toml.KeyPath

/-!
Tables under construction. A table may be written out, be implied by a longer header, or come from a
dotted key, and only the way it came to be says how it can still grow. Nothing is ever written
twice.
-/

namespace BlockOutline.Toml

/-- How a table came to be. -/
inductive Origin where
  /-- By its header, or as the document itself. -/
  | written
  /-- By a header that passes through it. -/
  | implied
  /-- By a dotted key that passes through it. -/
  | dotted
deriving Inhabited, Repr, BEq, DecidableEq

/-- What an entry holds while the document is read. -/
inductive Draft where
  | value (node : Node)
  | table (origin : Origin) (span : Span) (entries : List (Key × Draft))
  /-- Tables of one name: the finished ones, and the one that can still grow. -/
  | tables (finished : List Node) (span : Span) (entries : List (Key × Draft))
deriving Inhabited

mutual

/-- The value of an entry once nothing more is added. -/
def Draft.close : Draft → Node
  | .value node => node
  | .table _ span entries => .table span (closeEntries entries)
  | .tables finished span entries =>
    let start := (finished.head?.map (·.span.start)).getD span.start
    .array ⟨start, span.stop⟩ (finished ++ [.table span (closeEntries entries)])

def closeEntries : List (Key × Draft) → List (Key × Node)
  | [] => []
  | (key, draft) :: rest => (key, draft.close) :: closeEntries rest

end

structure Table where
  origin : Origin
  span : Span
  entries : List (Key × Draft)
deriving Inhabited

namespace Table

def draft (t : Table) : Draft :=
  .table t.origin t.span t.entries

def close (t : Table) : Node :=
  .table t.span (closeEntries t.entries)

def extendTo (stop : Nat) (t : Table) : Table :=
  { t with span := ⟨t.span.start, stop⟩ }

def find? (t : Table) (name : String) : Option Draft :=
  (t.entries.find? (·.1.name = name)).map (·.2)

/-- Adds an entry at the end, in place of one of the same name. -/
def put (t : Table) (key : Key) (draft : Draft) : Table :=
  { t with entries := t.entries.filter (·.1.name ≠ key.name) ++ [(key, draft)] }

/-- Changes the entry of a name where it stands; what was missing is added at the end. -/
def change (key : Key) (f : Option Draft → Except SyntaxError Draft) :
    List (Key × Draft) → Except SyntaxError (List (Key × Draft))
  | [] => do return [(key, ← f none)]
  | (k, draft) :: rest =>
    if k.name = key.name then do return (k, ← f (some draft)) :: rest
    else do return (k, draft) :: (← change key f rest)

/-- Changes the table that a path leads to. Missing tables are made on the way. A dotted key does
not enter a table that is written out, and a path through several tables of one name takes the last.
-/
def descend (offset : Nat) (origin : Origin) :
    List Key → (Table → Except SyntaxError Table) → Table → Except SyntaxError Table
  | [], f, t => f t
  | key :: path, f, t => do
    let enter (t : Table) : Except SyntaxError Table := descend offset origin path f t
    let entries ← change key (fun
      | none => Table.draft <$> enter ⟨origin, key.span, []⟩
      | some (.value _) => .error ⟨.notATable key.name, offset⟩
      | some (.table o span entries) =>
        if origin = .dotted ∧ o = .written then .error ⟨.duplicateKey key.name none, offset⟩
        else Table.draft <$> enter ⟨o, span, entries⟩
      | some (.tables finished span entries) =>
        (fun last => .tables finished last.span last.entries)
          <$> enter ⟨.written, span, entries⟩)
      t.entries
    pure { t with entries }

/-- Gives a key its value. The key must be new, and only a dotted key adds to a table that came from
dotted keys; `name` is the path of the table in whose lines the key stands. -/
def assign (offset : Nat) (name : Option (List String)) (path : KeyPath) (node : Node) (t : Table) :
    Except SyntaxError Table :=
  t.descend offset .dotted path.parents fun t =>
    if t.origin = .dotted ↔ path.parents = [] then
      .error ⟨.duplicateKey path.last.name none, offset⟩
    else if (t.find? path.last.name).isSome then
      .error ⟨.duplicateKey path.last.name name, offset⟩
    else .ok (t.put path.last (.value node))

end Table

end BlockOutline.Toml
