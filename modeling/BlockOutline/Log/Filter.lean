import BlockOutline.Log.FieldValue
import BlockOutline.Text.Bytes
import BlockOutline.Text.Pieces
import BlockOutline.Text.White

/-!
Which events are logged. A filter is a list of directives; for each event the most specific one
among those that match it decides, and an event that none matches is not logged.
-/

namespace BlockOutline.Log

open Text

/-- How much is logged, from nothing to everything. -/
inductive Level where
  | off
  | error
  | warn
  | info
  | debug
  | trace
deriving Inhabited, Repr, BEq, DecidableEq

namespace Level

def rank : Level → Nat
  | off => 0
  | error => 1
  | warn => 2
  | info => 3
  | debug => 4
  | trace => 5

def name : Level → String
  | off => "off"
  | error => "error"
  | warn => "warn"
  | info => "info"
  | debug => "debug"
  | trace => "trace"

def all : List Level :=
  [off, error, warn, info, debug, trace]

/-- The value of a text of decimal digits; a plus sign may stand before them. -/
def number? (cs : List Char) : Option Nat :=
  let digits := if cs.head? = some '+' then cs.drop 1 else cs
  if digits.isEmpty ∨ ¬digits.all Char.isDigit then none
  else some (digits.foldl (fun value c => 10 * value + (c.toNat - '0'.toNat)) 0)

/-- A level by its rank or its name in any case; an empty text is `error`. -/
def ofText? (cs : List Char) : Option Level :=
  match number? cs with
  | some n => all.find? (·.rank = n)
  | none =>
    if cs.isEmpty then some error
    else all.find? (·.name.toList = cs.map Char.toLower)

end Level

/-- A rule: events whose target begins so, and which have some fields, are logged up to a level. -/
structure Directive where
  target : String
  fields : List String := []
  level : Level
deriving Inhabited, Repr, BEq, DecidableEq

inductive DirectiveFault where
  | malformed
  | value (fault : PatternFault)
  | unknownLevel
deriving Inhabited, Repr, BEq, DecidableEq

def DirectiveFault.message : DirectiveFault → String
  | malformed => "invalid filter directive"
  | value fault => "invalid field filter: " ++ fault.message
  | unknownLevel =>
    "error parsing level filter: expected one of \"off\", \"error\", \"warn\", \"info\", "
      ++ "\"debug\", \"trace\", or a number 0-5"

namespace Directive

/-- Whether a directive without brackets before all else can begin with a character. -/
def begins (c : Char) : Bool :=
  isAlphanumeric c || c = '-' || c = ':' || c = '_'

/-- The byte at which the first character from a byte on begins that passes a test; the length of
the text if there is none. -/
def position (test : Char → Bool) (cs : List Char) (start : Nat) : Nat :=
  start + byteLength ((dropBytes start cs).takeWhile fun c => !test c)

def charAt? (cs : List Char) (byte : Nat) : Option Char :=
  (dropBytes byte cs).head?

def between (cs : List Char) (start stop : Nat) : List Char :=
  takeBytes (stop - start) (dropBytes start cs)

/-- The level behind an equals sign. No level stands for all of them. -/
def levelOf (cs : List Char) : Except DirectiveFault Level :=
  if cs.isEmpty then .ok .trace
  else
    match Level.ofText? cs with
    | some level => .ok level
    | none => .error .unknownLevel

/-- What stands in brackets behind a target. -/
structure Scope where
  field : Option String
  /-- Whether only events inside certain spans, or with certain values of fields, are meant. -/
  narrow : Bool
  stop : Nat
deriving Inhabited, Repr, DecidableEq

/-- The name of a span and a field between brackets, from the byte behind the first one. The texts
are taken from `cs`, all else is decided on `shown`. -/
def scopeOf (cs shown : List Char) (start : Nat) : Except DirectiveFault Scope :=
  let nameStop := position (fun c => c = ']' || c = '\x7b') shown start
  let fieldStart := nameStop + 1
  let fieldStop := position (· = '\x7d') shown fieldStart
  let field := between cs fieldStart fieldStop
  let name := field.takeWhile (· ≠ '=')
  let value := (field.drop (name.length + 1)).takeWhile (· ≠ '=')
  match charAt? shown nameStop with
  | some ']' => .ok ⟨none, true, nameStop + 1⟩
  | some _ =>
    if field.isEmpty ∨ charAt? shown fieldStop ≠ some '\x7d' then .error .malformed
    else
      match fieldValueFault? value with
      | some fault => .error (.value fault)
      | none =>
        if charAt? shown (fieldStop + 1) ≠ some ']' then .error .malformed
        else
          .ok ⟨some (String.ofList name), start < nameStop || field.contains '=', fieldStop + 2⟩
  | none => .error .malformed

/-- A directive from text: a level, or a target and a scope with a level. A missing level stands for
all of them. White space around the text is left out to find the parts, but they are taken from
the text as it stands, at the same bytes. Directives for spans and for values of fields say nothing
about events. -/
def ofText (cs : List Char) : Except DirectiveFault (Option Directive) := do
  let shown := ((cs.dropWhile isWhite).reverse.dropWhile isWhite).reverse
  let stop := position (fun c => c = '=' || c = '[') shown 0
  let target := String.ofList (takeBytes stop cs)
  match shown.head?, charAt? shown stop with
  | none, _ => throw .malformed
  | some '[', _ | some _, some '[' =>
    if stop > 0 ∧ ¬shown.head?.any begins then throw .malformed
    let scope ← scopeOf cs shown (stop + 1)
    let level ←
      match charAt? shown scope.stop with
      | none => pure .trace
      | some '=' => levelOf (dropBytes (scope.stop + 1) cs)
      | some _ => throw .malformed
    return if scope.narrow then none else some ⟨target, scope.field.toList, level⟩
  | some first, some _ =>
    if ¬begins first then throw .malformed
    return some ⟨target, [], ← levelOf (dropBytes (stop + 1) cs)⟩
  | some first, none =>
    if ¬begins first then throw .malformed
    match Level.ofText? cs with
    | some level => return some ⟨"", [], level⟩
    | none => return some ⟨String.ofList cs, [], .trace⟩

def covers (d : Directive) (target : String) (fields : List String) : Bool :=
  beginsWith target d.target && d.fields.all (· ∈ fields)

/-- Whether a directive is at most as specific as another one that covers the same event: the longer
target wins, then the greater number of fields, then the later names. -/
def atMost (d e : Directive) : Bool :=
  d.target.length < e.target.length
    || (d.target.length = e.target.length
      && (d.fields.length < e.fields.length
        || (d.fields.length = e.fields.length && !decide (e.fields < d.fields))))

end Directive

/-- Directives in the order in which they were given. -/
abbrev Filter : Type :=
  List Directive

namespace Filter

/-- The directives of a text, and a complaint for each part that is none. -/
def ofText (text : String) : Filter × List String :=
  let parts := (split ',' text).filter (· ≠ "")
  let read := parts.map fun part => (part, Directive.ofText part.toList)
  (read.filterMap fun (_, result) => result.toOption.join,
    read.filterMap fun (part, result) =>
      match result with
      | .ok _ => none
      | .error fault => some ("ignoring `" ++ part ++ "`: " ++ fault.message))

/-- The directive that decides about an event: of those that cover it, the last of the most specific
ones. -/
def deciding? (f : Filter) (target : String) (fields : List String) : Option Directive :=
  (f.filter (·.covers target fields)).foldl
    (fun best d =>
      match best with
      | some b => if b.atMost d then some d else best
      | none => some d)
    none

def allows (f : Filter) (level : Level) (target : String) (fields : List String) : Bool :=
  match f.deciding? target fields with
  | some d => level.rank ≤ d.level.rank
  | none => false

/-- The text of the filter that environment and verbosity ask for. A bare level from `own` is for
this program alone; `general` counts only without it, and the verbosity only without both. -/
def requested (own general : Option String) (verbosity : Nat) : String :=
  match own, general with
  | some value, _ =>
    if value.toList.any fun c => c = '=' || c = ':' || c = ',' then value
    else "warn,codeblock=" ++ value
  | none, some value => value
  | none, none =>
    let level := match verbosity with
      | 0 => Level.warn
      | 1 => .debug
      | _ => .trace
    "warn,codeblock=" ++ level.name

end Filter

end BlockOutline.Log
