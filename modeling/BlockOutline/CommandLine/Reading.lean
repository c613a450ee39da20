import BlockOutline.Block.Listing
import BlockOutline.CommandLine.Misuse

/-!
Reading command lines. Every argument is a switch, the value of a switch, an operand, or the word
that chooses the command; the command then reads the arguments behind it.
-/

namespace BlockOutline.CommandLine

inductive Argument where
  | switch (switch : Switch)
  | value (switch : Switch) (value : String)
  | operand (value : String)
deriving Inhabited, Repr, DecidableEq

namespace Argument

def occurrences (given : List Argument) (s : Switch) : Nat :=
  given.count (.switch s)

def values (given : List Argument) (s : Switch) : List String :=
  given.filterMap fun
    | .value t v => if s = t then some v else none
    | _ => none

def operand? (given : List Argument) : Option String :=
  given.findSome? fun
    | .operand word => some word
    | _ => none

/-- The switches among arguments, each once: where it was given last, or first if it has values. -/
def switches (given : List Argument) : List Switch :=
  given.foldl
    (fun found argument =>
      match argument with
      | .switch s => found.filter (· ≠ s) ++ [s]
      | .value s _ => if s ∈ found then found else found ++ [s]
      | .operand _ => found)
    []

/-- The switches among arguments and some further ones, each once. -/
def switchesAnd (given : List Argument) (others : List Switch) : List Switch :=
  others.foldl (fun found s => if s ∈ found then found else found ++ [s]) (switches given)

/-- The usage line that shows the given switches. -/
def usage (given : List Argument) (others : List Switch) : UsageLine :=
  if given.isEmpty && others.isEmpty then .whole else .narrow (switchesAnd given others)

def isOwn (c : Command) : Argument → Bool
  | .switch s | .value s _ => s ∈ c.own
  | .operand _ => true

end Argument

/-- What a user wants to be done. -/
inductive Task where
  | inspect (file : String) (listing : Listing)
  | check (path : String) (categories : List String)
  | listCategories (path : String)
deriving Inhabited, Repr, DecidableEq

def Task.path : Task → String
  | inspect file _ => file
  | check path _ | listCategories path => path

/-- A task with the settings for all tasks. -/
structure Invocation where
  colours : Bool
  verbosity : Nat
  task : Task
deriving Inhabited, Repr, DecidableEq

inductive Refusal where
  | help (command : Command)
  | version
  | nothingGiven
  | misuse (misuse : Misuse)
deriving Inhabited, Repr, DecidableEq

/-- The forms of arguments before two dashes. -/
inductive Form where
  | dashes
  | long (name : String) (value : Option String)
  | letters (letters : List Char)
  | word
deriving Inhabited, Repr, DecidableEq

/-- The form of an argument. A single dash is a word. -/
def Form.of (argument : String) : Form :=
  match argument.toList with
  | ['-', '-'] => dashes
  | '-' :: '-' :: text =>
    let name := text.takeWhile (· ≠ '=')
    let value := (text.drop name.length).tail?.map String.ofList
    long (String.ofList name) value
  | '-' :: letter :: more => letters (letter :: more)
  | _ => word

/-- The arguments taken so far, and the switch whose value is to come. -/
structure Progress where
  given : List Argument := []
  /-- An argument that was taken last and can still be followed by more of its kind. -/
  latest : Option Argument := none
  waiting : Option Switch := none
deriving Inhabited, Repr, DecidableEq

namespace Progress

def all (p : Progress) : List Argument :=
  p.given ++ p.latest.toList

/-- Takes an argument that is complete. -/
def take (p : Progress) (argument : Argument) : Progress :=
  ⟨p.all ++ [argument], none, none⟩

/-- Takes an argument that the next one completes. -/
def takeOpen (p : Progress) (argument : Argument) : Progress :=
  ⟨p.all, some argument, none⟩

end Progress

namespace Command

def refuse {α : Type} (c : Command) (fault : Fault) (tip : Option Tip) (usage : Option UsageLine) :
    Except Refusal α :=
  .error (.misuse ⟨c, fault, tip, usage⟩)

/-- No switch may be waiting for its value. -/
def settle (c : Command) (p : Progress) : Except Refusal Unit :=
  match p.waiting with
  | some s => c.refuse (.missingValue s) none none
  | none => pure ()

def takeSwitch (c : Command) (p : Progress) (s : Switch) : Except Refusal Progress := do
  c.settle p
  match s with
  | .help => throw (.help c)
  | .version => throw .version
  | s =>
    if .switch s ∈ p.all ∧ ¬s.repeats then c.refuse (.repeated s) none (some .whole)
    else return p.take (.switch s)

/-- Takes a switch with the value that comes with it, or waits for the value. -/
def takeValue (c : Command) (p : Progress) (s : Switch) (value : Option String) :
    Except Refusal Progress := do
  c.settle p
  match value with
  | some v => return p.take (.value s v)
  | none => return ⟨p.all, none, some s⟩

/-- The tip that makes an argument an operand, for commands that have one. -/
def operandTip (c : Command) (argument : String) : Option Tip :=
  c.operand?.map fun _ => .dashesBefore argument

/-- Refuses a name behind two dashes that is no switch of a command. -/
def refuseName {α : Type} (c : Command) (p : Progress) (name : String) (later : List String) :
    Except Refusal α :=
  let fault := .unexpectedArgument ("--" ++ name)
  match c.similarSwitch? name with
  | some s => c.refuse fault (some (.similarSwitch s)) (some (Argument.usage p.all [s]))
  | none =>
    let tip :=
      match c.switchElsewhere? name later with
      | some (sub, s) => some (.switchOf sub s)
      | none => c.operandTip ("--" ++ name)
    c.refuse fault tip (some (Argument.usage p.all []))

/-- The usage line for a switch with a value that it does not take. Of the other arguments the
complete ones matter; if one of them is the command's own, its group is shown. -/
def valueUsage (c : Command) (p : Progress) (s : Switch) : UsageLine :=
  let switches := Argument.switchesAnd p.given [s]
  if p.given.any (Argument.isOwn c) then .grouped switches else .narrow switches

/-- Takes a name behind two dashes with the value that is set with it. -/
def takeLong (c : Command) (p : Progress) (name : String) (value : Option String)
    (later : List String) : Except Refusal Progress :=
  match c.named? name, value with
  | none, _ => c.refuseName p name later
  | some s, value =>
    if s.takesValue then c.takeValue p s value
    else
      match value with
      | some v =>
        c.refuse (.unexpectedValue v s) none (some (c.valueUsage p s))
      | none => c.takeSwitch p s

/-- Takes the letters behind one dash; what follows the letter of a switch with value is its value.
-/
def takeLetters (c : Command) (p : Progress) : List Char → Except Refusal Progress
  | [] => return p
  | letter :: more =>
    match c.lettered? letter with
    | none =>
      let argument := "-" ++ letter.toString
      c.refuse (.unexpectedArgument argument) (c.operandTip argument) (some .whole)
    | some s =>
      if s.takesValue then
        let value := if more.head? = some '=' then more.drop 1 else more
        c.takeValue p s (if more.isEmpty then none else some (String.ofList value))
      else do takeLetters c (← c.takeSwitch p s) more

/-- Refuses a word that can be no operand. -/
def refuseWord {α : Type} (c : Command) (afterDashes : Bool) (word : String) : Except Refusal α :=
  if afterDashes && (c.subcommand? word).isSome then
    c.refuse (.unexpectedArgument word) (some (.noDashesBefore word)) (some .whole)
  else if c.subcommands.isEmpty then
    c.refuse (.unexpectedArgument word) none (some .whole)
  else
    let similar := c.similarCommands word
    let tip := if similar.isEmpty then none else some (.similarCommands similar)
    c.refuse (.unknownCommand word) tip (some .whole)

def takeWord (c : Command) (p : Progress) (afterDashes : Bool) (word : String) :
    Except Refusal Progress :=
  if c.operand?.isNone || (Argument.operand? p.all).isSome then c.refuseWord afterDashes word
  else do
    c.settle p
    return p.takeOpen (.operand word)

def readWords (c : Command) : Progress → List String → Except Refusal Progress
  | p, [] => return p
  | p, word :: rest => do readWords c (← c.takeWord p true word) rest

/-- Reads the arguments of a command up to the word that chooses another one. -/
def readArguments (c : Command) :
    Progress → List String → Except Refusal (Progress × Option (Command × List String))
  | p, [] => return (p, none)
  | p, argument :: rest => do
    match Form.of argument with
    | .dashes => return (← c.readWords p rest, none)
    | .long name value => readArguments c (← c.takeLong p name value rest) rest
    | .letters letters => readArguments c (← c.takeLetters p letters) rest
    | .word =>
      match p.waiting, c.subcommand? argument with
      | some s, _ => readArguments c (p.takeOpen (.value s argument)) rest
      | none, some sub => return (p, some (sub, rest))
      | none, none => readArguments c (← c.takeWord p false argument) rest

def helpOn (c : Command) : List String → Refusal
  | [] => .help c
  | word :: rest =>
    match c.subcommand? word with
    | some sub => helpOn sub rest
    | none => .misuse { command := c, fault := .unknownCommand word }

end Command

/-- Puts the command for single files before the first argument without a dash, unless that chooses
a command. -/
def withCommand : List String → List String
  | [] => []
  | argument :: rest =>
    if Text.beginsWith argument "-" then argument :: withCommand rest
    else if (Command.top.subcommand? argument).isSome then argument :: rest
    else Command.inspect.name :: argument :: rest

namespace Task

/-- The task of a command with its operand and switches. -/
def of (c : Command) (operand : String) (given : List Argument) : Task :=
  let has (s : Switch) : Bool := Argument.occurrences given s > 0
  match c with
  | .check =>
    if has .listCategories then listCategories operand
    else check operand (Argument.values given .category)
  | _ => inspect operand ⟨has .prototypes, has .statements, has .tree, has .dump⟩

end Task

/-- The invocation that arguments stand for. Switches for all tasks can come before the word that
chooses the command and behind it; of the two verbosities the latter counts, if it is given. -/
def read (arguments : List String) : Except Refusal Invocation := do
  let (outer, next) ← Command.top.readArguments {} (withCommand arguments)
  match next with
  | none =>
    if outer.all.isEmpty then throw .nothingGiven
    else Command.top.refuse (.missingCommand .top) none (some .whole)
  | some (.help, words) => throw (Command.top.helpOn words)
  | some (c, rest) =>
    let (inner, _) ← c.readArguments {} rest
    c.settle inner
    match Argument.operand? inner.all, c.operand? with
    | some operand, _ =>
      let count := Argument.occurrences inner.all .verbose
      return {
        colours := decide (.switch .noColour ∉ outer.all ++ inner.all)
        verbosity := if count > 0 then count else Argument.occurrences outer.all .verbose
        task := .of c operand inner.all }
    | none, some missing =>
      c.refuse (.missingOperand missing) none (some (.narrow (Argument.switches inner.all)))
    | none, none => throw .nothingGiven

end BlockOutline.CommandLine
