/-!
Searching, cutting and joining texts.
-/

namespace BlockOutline.Text

/-- Cuts a list at every element that passes a test; there is always a first piece. -/
def splitAt {α : Type} (test : α → Bool) : List α → List (List α)
  | [] => [[]]
  | a :: rest =>
    if test a then [] :: splitAt test rest
    else
      match splitAt test rest with
      | [] => [[a]]
      | piece :: pieces => (a :: piece) :: pieces

def split (separator : Char) (text : String) : List String :=
  (splitAt (· = separator) text.toList).map String.ofList

def joined (separator : String) : List String → String
  | [] => ""
  | [text] => text
  | text :: rest => text ++ separator ++ joined separator rest

def beginsWith (text beginning : String) : Bool :=
  beginning.toList.isPrefixOf text.toList

def endsWith (text ending : String) : Bool :=
  ending.toList.isSuffixOf text.toList

def occursIn {α : Type} [BEq α] (part : List α) : List α → Bool
  | [] => part.isEmpty
  | a :: rest => part.isPrefixOf (a :: rest) || occursIn part rest

def contains (text part : String) : Bool :=
  occursIn part.toList text.toList

/-- What is left of a text without its ending, if it ends so. -/
def dropEnding? (text ending : String) : Option String :=
  let kept := text.toList.length - ending.toList.length
  if endsWith text ending then some (String.ofList (text.toList.take kept)) else none

/-- What is left of a list without its beginning, if it begins so. -/
def dropBeginning? {α : Type} [DecidableEq α] : List α → List α → Option (List α)
  | [], rest => some rest
  | _ :: _, [] => none
  | a :: beginning, b :: rest => if a = b then dropBeginning? beginning rest else none

/-- A text without the given character at both ends. -/
def trim (c : Char) (text : String) : String :=
  String.ofList (((text.toList.dropWhile (· = c)).reverse.dropWhile (· = c)).reverse)

def replace (old new : Char) (text : String) : String :=
  String.ofList (text.toList.map fun c => if c = old then new else c)

/-- The lines of a text. A line ending is a line feed, with a carriage return before it or not;
after the last one there is no further line. -/
def lines (text : String) : List String :=
  let pieces := splitAt (· = '\n') text.toList
  let whole := pieces.dropLast.map fun line =>
    if line.getLast? = some '\r' then line.dropLast else line
  let last := pieces.getLast?.getD []
  (if last = [] then whole else whole ++ [last]).map String.ofList

end BlockOutline.Text
