import BlockOutline.Log.Filter

/-!
Logged events. An event has a message and named values; it is written on one line.
-/

namespace BlockOutline.Log

/-- What happened, with named values as text. -/
structure Event where
  level : Level
  target : String
  message : String
  values : List (String × String)
deriving Inhabited, Repr, DecidableEq

namespace Event

/-- The names of what an event carries; the message is among it. -/
def fields (e : Event) : List String :=
  "message" :: e.values.map (·.1)

def styled (colours : Bool) (number text : String) : String :=
  if colours then "\x1b[" ++ number ++ "m" ++ text ++ "\x1b[0m" else text

def colour : Level → String
  | .trace => "35"
  | .debug => "34"
  | .info => "32"
  | .warn => "33"
  | .off | .error => "31"

def levelText (level : Level) : String :=
  let name := level.name.toList.map Char.toUpper
  String.ofList (List.replicate (5 - name.length) ' ' ++ name)

def line (colours : Bool) (time : String) (e : Event) : String :=
  styled colours "2" time ++ " " ++ styled colours (colour e.level) (levelText e.level) ++ " "
    ++ e.message
    ++ String.join (e.values.map fun (name, value) =>
      " " ++ styled colours "3" name ++ styled colours "2" "=" ++ value)
    ++ "\n"

end Event

end BlockOutline.Log
