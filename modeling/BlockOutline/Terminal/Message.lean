import BlockOutline.Log.Event
import BlockOutline.Terminal.Styled

/-!
What a program tells its user besides its results: styled text, and events for the log. Both go the
same way, in the order in which they arise; the log leaves out what its filter does not allow.
-/

namespace BlockOutline.Terminal

inductive Message where
  | text (pieces : List Piece)
  | event (event : Log.Event)
deriving Inhabited, Repr

structure Settings where
  textColours : Bool
  logColours : Bool
  filter : Log.Filter
  time : String
deriving Inhabited, Repr

namespace Message

def line (content : String) : Message :=
  text [.plain (content ++ "\n")]

def render (s : Settings) : Message → String
  | text pieces => Terminal.render s.textColours pieces
  | event e =>
    if s.filter.allows e.level e.target e.fields then e.line s.logColours s.time else ""

def renderAll (s : Settings) (messages : List Message) : String :=
  String.join (messages.map (render s))

end Message

end BlockOutline.Terminal
