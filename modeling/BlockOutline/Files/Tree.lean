import BlockOutline.Files.Entry
import BlockOutline.Files.Path

/-!
Stored files, directories and symbolic links, and how paths lead through them. A path is taken step
by step; a link stands for the steps of its target, and only so many links are followed. Main
statement: what is left of them never grows.
-/

namespace BlockOutline

/-- What a directory can hold. A file has no text if its bytes are not UTF-8. -/
inductive FileTree where
  | file (text : Option String)
  | directory (entries : List (Bytes × FileTree))
  | link (target : Bytes)
  /-- The device that is always empty. -/
  | device
deriving Inhabited

namespace FileTree

/-- A directory with the directories above it, nearest first. -/
structure Place where
  here : List (Bytes × FileTree)
  above : List (List (Bytes × FileTree))
deriving Inhabited

namespace Place

def up : Place → Place
  | ⟨here, []⟩ => ⟨here, []⟩
  | ⟨_, parent :: above⟩ => ⟨parent, above⟩

def top (p : Place) : Place :=
  ⟨p.above.getLast?.getD p.here, []⟩

def enter (p : Place) (entries : List (Bytes × FileTree)) : Place :=
  ⟨entries, p.here :: p.above⟩

def find? (p : Place) (name : Bytes) : Option FileTree :=
  (p.here.find? (·.1 = name)).map (·.2)

end Place

/-- What is at the end of a path. -/
inductive Target where
  | entry (entry : Entry)
  | directory (place : Place)
deriving Inhabited

/-- A file, as far as its bytes are text. -/
def content (text : Option String) : Entry :=
  .file (text.elim (.error .notText) .ok)

def nameLimit : Nat := 255

def pathLimit : Nat := 4095

def linkLimit : Nat := 40

/-- Takes the steps of a path: what is at its end, and how many more links could be followed. -/
def resolve : (links : Nat) → Place → List Component → Except ReadError (Target × Nat)
  | links, p, [] => .ok (.directory p, links)
  | links, p, .current :: path => resolve links p path
  | links, p, .root :: path => resolve links p.top path
  | links, p, .parent :: path => resolve links p.up path
  | links, p, .name n :: path =>
    if nameLimit < n.length then .error .nameTooLong
    else
      match p.find? n with
      | none => .error .notFound
      | some (.directory entries) => resolve links (p.enter entries) path
      | some (.file text) =>
        if path.isEmpty then .ok (.entry (content text), links) else .error .notADirectory
      | some .device =>
        if path.isEmpty then .ok (.entry (.device ""), links) else .error .notADirectory
      | some (.link target) =>
        match links with
        | 0 => .error .tooManyLinks
        | links + 1 => resolve links p (Path.steps target ++ path)
termination_by links _ path => (links, path.length)

/-- Following a path uses links up. -/
theorem le_of_resolve {links left : Nat} {p : Place} {path : List Component} {t : Target}
    (h : resolve links p path = .ok (t, left)) : left ≤ links := by
  fun_induction resolve links p path with
  | case1 => simp_all
  | case2 links p path ih => exact ih h
  | case3 links p path ih => exact ih h
  | case4 links p path ih => exact ih h
  | case7 links p n path _ entries _ ih => exact ih h
  | case13 p n path _ target _ links ih => exact Nat.le_succ_of_le (ih h)
  | _ => simp_all

/-- The entries of a directory with all links followed; `length` bytes lead to their names. -/
def follow (links length : Nat) (p : Place) : List (Bytes × FileTree) → List (Bytes × Entry)
  | [] => []
  | (name, tree) :: rest =>
    let stop := length + name.length
    let entry : Entry :=
      if pathLimit < stop then .file (.error .nameTooLong)
      else
        match tree with
        | .file text => content text
        | .device => .device ""
        | .directory entries => .directory (follow links (stop + 1) (p.enter entries) entries)
        | .link target =>
          match links with
          | 0 => .file (.error .tooManyLinks)
          | links + 1 =>
            match h : resolve links p (Path.steps target) with
            | .error e => .file (.error e)
            | .ok (.entry e, _) => e
            | .ok (.directory q, left) => .directory (follow left (stop + 1) q q.here)
    (name, entry) :: follow links length p rest
termination_by entries => (links, sizeOf entries)
decreasing_by
  · apply Prod.Lex.right
    simp only [List.cons.sizeOf_spec, Prod.mk.sizeOf_spec, directory.sizeOf_spec]
    omega
  · exact Prod.Lex.left _ _ (Nat.lt_succ_of_le (le_of_resolve h))
  · apply Prod.Lex.right
    simp only [List.cons.sizeOf_spec, Prod.mk.sizeOf_spec]
    omega

/-- What a path leads to from a place. -/
def lookup (p : Place) : Lookup := fun path =>
  if path = [] then .error .notFound
  else if pathLimit < path.length then .error .nameTooLong
  else
    match resolve linkLimit p (Path.steps path) with
    | .error e => .error e
    | .ok (.entry e, _) => .ok e
    | .ok (.directory q, left) =>
      .ok (.directory (follow left (Path.join path []).length q q.here))

/-- A working directory as a system has it: two levels below the topmost directory, whose usual
entries hold nothing else that is known. -/
def workingDirectory (entries : List (Bytes × FileTree)) : Place :=
  let empty (name : String) : Bytes × FileTree := (name, .directory [])
  let others := ["bin", "boot", "etc", "home", "lib", "media", "mnt", "opt", "proc", "root", "run",
    "sbin", "srv", "sys", "tmp", "usr", "var"]
  ⟨entries, [[], ("dev", .directory [("null", .device)]) :: others.map empty]⟩

/-- Stores a tree at names that lead to it, with the directories on the way. -/
def store (tree : FileTree) : List Bytes → List (Bytes × FileTree) → List (Bytes × FileTree)
  | [], entries => entries
  | [name], entries => entries.filter (·.1 ≠ name) ++ [(name, tree)]
  | name :: names, entries =>
    let inner :=
      match entries.find? (·.1 = name) with
      | some (_, .directory inner) => inner
      | _ => []
    entries.filter (·.1 ≠ name) ++ [(name, .directory (store tree names inner))]

end FileTree

end BlockOutline
