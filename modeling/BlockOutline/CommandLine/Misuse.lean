import BlockOutline.CommandLine.Command
import BlockOutline.Text.Similarity

/-!
What is wrong with a command line, and what is said about it: a message, a tip, the usage of the
command, and where to read more.
-/

namespace BlockOutline.CommandLine

open Terminal (Piece)

/-- Why arguments make no sense. -/
inductive Fault where
  | unexpectedArgument (argument : String)
  | unexpectedValue (value : String) (switch : Switch)
  | repeated (switch : Switch)
  | missingValue (switch : Switch)
  | missingOperand (operand : Operand)
  | unknownCommand (word : String)
  | missingCommand (command : Command)
deriving Inhabited, Repr, DecidableEq

def quoted (style : Terminal.Style) (text : String) : List Piece :=
  [.plain "'", ⟨style, text⟩, .plain "'"]

namespace Fault

def message : Fault → List Piece
  | unexpectedArgument argument =>
    .plain "unexpected argument " :: quoted .invalid argument ++ [.plain " found"]
  | unexpectedValue value switch =>
    .plain "unexpected value " :: quoted .invalid value ++ .plain " for "
      :: quoted .literal switch.shown ++ [.plain " found; no more were expected"]
  | repeated switch =>
    .plain "the argument " :: quoted .invalid switch.shown
      ++ [.plain " cannot be used multiple times"]
  | missingValue switch =>
    .plain "a value is required for " :: quoted .invalid switch.shown
      ++ [.plain " but none was supplied"]
  | missingOperand operand =>
    [.plain "the following required arguments were not provided:\n  ", ⟨.valid, operand.shown⟩]
  | unknownCommand word => .plain "unrecognized subcommand " :: quoted .invalid word
  | missingCommand command =>
    quoted .invalid command.name
      ++ .plain " requires a subcommand but one was not provided\n  [subcommands: "
      :: List.intercalate [.plain ", "] (command.subcommands.map fun c => [⟨.valid, c.name⟩])
      ++ [.plain "]"]

end Fault

/-- Advice for a command line that makes no sense. -/
inductive Tip where
  /-- Two dashes before the argument make it an operand. -/
  | dashesBefore (argument : String)
  /-- Without the two dashes before it the word is a command. -/
  | noDashesBefore (word : String)
  | similarSwitch (switch : Switch)
  | switchOf (command : Command) (switch : Switch)
  | similarCommands (commands : List Command)
deriving Inhabited, Repr, DecidableEq

namespace Tip

def message : Tip → List Piece
  | dashesBefore argument =>
    .plain "to pass " :: quoted .invalid argument
      ++ .plain " as a value, use " :: quoted .valid ("-- " ++ argument)
  | noDashesBefore word =>
    .plain "subcommand " :: quoted .valid word
      ++ .plain " exists; to use it, remove the " :: quoted .invalid "--" ++ [.plain " before it"]
  | similarSwitch switch =>
    .plain "a similar argument exists: " :: quoted .valid ("--" ++ switch.name)
  | switchOf command switch =>
    quoted .valid (command.name ++ " --" ++ switch.name) ++ [.plain " exists"]
  | similarCommands commands =>
    .plain (if commands.length = 1 then "a similar subcommand exists: "
      else "some similar subcommands exist: ")
      :: List.intercalate [.plain ", "] (commands.map fun c => quoted .valid c.name)

end Tip

/-- A command line that makes no sense to a command. -/
structure Misuse where
  command : Command
  fault : Fault
  tip : Option Tip := none
  usage : Option UsageLine := some .whole
deriving Inhabited, Repr, DecidableEq

namespace Misuse

/-- Where to read more; the command for help knows no switch for help. -/
def advice (c : Command) : List (List Piece) :=
  if .help ∈ c.switches then
    [.plain "For more information, try " :: quoted .literal "--help" ++ [.plain "."]]
  else []

/-- The report to the user: its parts are set apart by empty lines. -/
def report (m : Misuse) : List Piece :=
  let parts :=
    [⟨.problem, "error:"⟩ :: .plain " " :: m.fault.message]
      ++ m.tip.toList.map (fun t => .plain "  " :: ⟨.valid, "tip:"⟩ :: .plain " " :: t.message)
      ++ m.usage.toList.map m.command.usage
      ++ advice m.command
  List.intercalate [.plain "\n\n"] parts ++ [.plain "\n"]

end Misuse

/-- The switch of a command whose name comes closest to a word, if one is close. -/
def Command.similarSwitch? (c : Command) (word : String) : Option Switch :=
  (Text.similarTo Switch.name word c.switches).getLast?

/-- A command among the later arguments, the earliest one first, that has a switch of a similar
name. -/
def Command.switchElsewhere? (c : Command) (word : String) (later : List String) :
    Option (Command × Switch) :=
  later.findSome? fun argument => do
    let sub ← c.subcommand? argument
    return (sub, ← sub.similarSwitch? word)

def Command.similarCommands (c : Command) (word : String) : List Command :=
  Text.similarTo Command.name word c.subcommands

end BlockOutline.CommandLine
