import BlockOutline.Terminal.Styled
import BlockOutline.Text.Pieces

/-!
The commands of the program, with the switches and the operand that each of them takes.
-/

namespace BlockOutline.CommandLine

open Terminal (Piece)

inductive Switch where
  | noColour
  | verbose
  | prototypes
  | statements
  | tree
  | dump
  | category
  | listCategories
  | help
  | version
deriving Inhabited, Repr, DecidableEq

namespace Switch

def name : Switch → String
  | noColour => "no-color"
  | verbose => "verbose"
  | prototypes => "prototypes"
  | statements => "statements"
  | tree => "tree"
  | dump => "ast"
  | category => "category"
  | listCategories => "list-categories"
  | help => "help"
  | version => "version"

/-- The letter of a switch behind one dash. -/
def letter? : Switch → Option Char
  | verbose => some 'v'
  | category => some 'c'
  | help => some 'h'
  | version => some 'V'
  | _ => none

def valueName? : Switch → Option String
  | category => some "CATEGORY"
  | _ => none

def takesValue (s : Switch) : Bool :=
  s.valueName?.isSome

def repeats : Switch → Bool
  | verbose | category => true
  | _ => false

/-- What follows the name of a switch in usage lines: its value, or dots if it may be repeated. -/
def tail (s : Switch) : String :=
  match s.valueName? with
  | some value => " <" ++ value ++ ">"
  | none => if s.repeats then "..." else ""

def shown (s : Switch) : String :=
  "--" ++ s.name ++ s.tail

def pieces (s : Switch) : List Piece :=
  [⟨.literal, "--" ++ s.name⟩, .plain s.tail]

def about : Switch → String
  | noColour => "Disable colored output"
  | verbose => "More log output on stderr (-v debug, -vv trace)"
  | prototypes => "List every prototype, depth-first"
  | statements => "List every statement, depth-first"
  | tree => "Print the indented block tree"
  | dump => "Dump the block tree structure"
  | category => "Run only tests in these categories (subfolder names). Repeatable"
  | listCategories => "List available categories and exit"
  | help => "Print help"
  | version => "Print version"

end Switch

/-- An argument that is no switch. -/
structure Operand where
  name : String
  /-- Whether there has to be one; otherwise there may be any number of them. -/
  required : Bool
  about : String
deriving Inhabited, Repr, DecidableEq

def Operand.shown (o : Operand) : String :=
  if o.required then "<" ++ o.name ++ ">" else "[" ++ o.name ++ "]..."

/-- The program by itself, and the commands that can follow its name. -/
inductive Command where
  | top
  | inspect
  | check
  | help
deriving Inhabited, Repr, DecidableEq

namespace Command

def name : Command → String
  | top => "codeblock"
  | inspect => "show"
  | check => "test"
  | help => "help"

def words : Command → List String
  | top => [top.name]
  | c => [top.name, c.name]

def about : Command → String
  | top => "Inspect nested code block outlines"
  | inspect => "Load an outline and report on its block tree"
  | check => "Run .test.toml fixture files"
  | help => "Print this message or the help of the given subcommand(s)"

def subcommands : Command → List Command
  | top => [inspect, check, help]
  | _ => []

def subcommand? (c : Command) (word : String) : Option Command :=
  c.subcommands.find? (·.name = word)

/-- The switches that belong to a command alone. With the operand they are a group of arguments. -/
def own : Command → List Switch
  | top => [.noColour, .verbose]
  | inspect => [.prototypes, .statements, .tree, .dump]
  | check => [.category, .listCategories]
  | help => []

/-- The switches of a command: its own ones, those for all commands, and those that print texts. -/
def switches : Command → List Switch
  | top => top.own ++ [.help, .version]
  | help => []
  | c => c.own ++ top.own ++ [.help]

/-- The switches of a command in the order in which its help lists them. -/
def listed : Command → List Switch
  | top => [.noColour, .verbose, .help, .version]
  | inspect => [.noColour, .prototypes, .statements, .verbose, .tree, .dump, .help]
  | check => [.category, .noColour, .listCategories, .verbose, .help]
  | help => []

def named? (c : Command) (name : String) : Option Switch :=
  c.switches.find? (·.name = name)

def lettered? (c : Command) (letter : Char) : Option Switch :=
  c.switches.find? (·.letter? = some letter)

def operand? : Command → Option Operand
  | top => none
  | inspect => some ⟨"FILE", true, "TOML outline file"⟩
  | check => some ⟨"PATH", true, "Path to a .test.toml file or directory containing them"⟩
  | help => some ⟨"COMMAND", false, "Print help for the subcommand(s)"⟩

end Command

/-- How much of a command a usage line shows. -/
inductive UsageLine where
  | whole
  /-- Only the switches that matter. -/
  | narrow (switches : List Switch)
  /-- Only the switches that matter; the command's own ones stand together with the operand. -/
  | grouped (switches : List Switch)
deriving Inhabited, Repr, DecidableEq

namespace Command

def group (c : Command) : String :=
  "<" ++ Text.joined "|" (c.operand?.toList.map Operand.name ++ c.own.map Switch.shown) ++ ">"

def usage (c : Command) (line : UsageLine) : List Piece :=
  let operands := c.operand?.toList.map fun o => [.plain o.shown]
  let next := if c.subcommands.isEmpty then [] else [[.plain "<COMMAND>"]]
  let arguments :=
    match line with
    | .whole => (if c.switches.isEmpty then [] else [[.plain "[OPTIONS]"]]) ++ operands
    | .narrow switches => switches.map Switch.pieces ++ operands
    | .grouped switches =>
      (switches.filter (· ∉ c.own)).map Switch.pieces ++ [[.plain c.group]]
  [⟨.title, "Usage:"⟩, .plain " "]
    ++ List.intercalate [.plain " "]
      ([⟨.literal, Text.joined " " c.words⟩] :: arguments ++ next)

/-- Rows of two columns under a heading; the second column starts two blanks after the longest text
of the first one. -/
def table (heading : String) (rows : List (List Piece × String)) : List Piece :=
  let length (left : List Piece) : Nat := (Terminal.text left).length
  let width := rows.foldl (fun width row => max width (length row.1)) 0
  let row := fun (left, right) =>
    let gap := String.ofList (List.replicate (width - length left + 2) ' ')
    .plain "  " :: left ++ [.plain (gap ++ right ++ "\n")]
  if rows.isEmpty then []
  else [.plain "\n", ⟨.title, heading ++ ":"⟩, .plain "\n"] ++ rows.flatMap row

def switchCell (s : Switch) : List Piece :=
  match s.letter? with
  | some letter => ⟨.literal, "-" ++ letter.toString⟩ :: .plain ", " :: s.pieces
  | none => .plain "    " :: s.pieces

def helpText (c : Command) : List Piece :=
  [.plain (c.about ++ "\n\n")] ++ c.usage .whole ++ [.plain "\n"]
    ++ table "Commands" (c.subcommands.map fun s => ([⟨.literal, s.name⟩], s.about))
    ++ table "Arguments" (c.operand?.toList.map fun o => ([.plain o.shown], o.about))
    ++ table "Options" (c.listed.map fun s => (switchCell s, s.about))

def versionText : List Piece :=
  [.plain (top.name ++ " 0.1.0\n")]

end Command

end BlockOutline.CommandLine
