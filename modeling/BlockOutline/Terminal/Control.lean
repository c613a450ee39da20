/-!
Control sequences inside texts for terminals, and what is left of a text without them. Main
statement: a text of printable characters stays as it is.
-/

namespace BlockOutline.Terminal

inductive SequenceState where
  | outside
  | escape
  | escapeIntermediate
  | parameters
  | deviceEntry
  | deviceParameters
  | deviceIntermediate
  /-- In a string that only a string terminator ends. -/
  | data
  /-- In a string that a bell ends. -/
  | systemCommand
deriving Inhabited, Repr, DecidableEq

def isBlank (c : Char) : Bool :=
  c ∈ [' ', '\t', '\n', '\x0c', '\r']

def isPrintable (c : Char) : Bool :=
  isBlank c || (0x20 ≤ c.toNat && c.toNat ≠ 0x7F)

namespace SequenceState

/-- Whether the byte of the string terminator is among the bytes of a character. -/
def endsData (c : Char) : Bool :=
  0x9C ∈ String.utf8EncodeChar c

/-- The state behind a character. The escape character begins a sequence anywhere, and two other
controls end one anywhere; other controls change nothing. -/
def next (s : SequenceState) (c : Char) : SequenceState :=
  let among (first last : Nat) : Bool := first ≤ c.toNat && c.toNat ≤ last
  if c = '\x1b' then escape
  else if c = '\x18' ∨ c = '\x1a' then outside
  else
    match s with
    | outside => outside
    | escape =>
      if among 0x20 0x2F then escapeIntermediate
      else if c = '[' then parameters
      else if c = ']' then systemCommand
      else if c = 'P' then deviceEntry
      else if c = 'X' ∨ c = '^' ∨ c = '_' then data
      else if among 0x30 0x7E then outside
      else escape
    | escapeIntermediate => if among 0x30 0x7E then outside else escapeIntermediate
    | parameters => if among 0x40 0x7E then outside else parameters
    | deviceEntry =>
      if among 0x20 0x2F then deviceIntermediate
      else if among 0x30 0x3F then deviceParameters
      else if among 0x40 0x7E then data
      else deviceEntry
    | deviceParameters =>
      if among 0x20 0x2F then deviceIntermediate
      else if among 0x3C 0x7E then data
      else deviceParameters
    | deviceIntermediate => if among 0x30 0x7E then data else deviceIntermediate
    | data => if endsData c then outside else data
    | systemCommand => if c = '\x07' then outside else systemCommand

/-- Whether a character is shown. Tabs and line endings also are inside short sequences. -/
def shows (s : SequenceState) (c : Char) : Bool :=
  match s with
  | outside => isPrintable c
  | escape | escapeIntermediate | parameters => isBlank c && c ≠ ' '
  | _ => false

end SequenceState

/-- What is known while a text is read: the state, and whether the last character was shown. -/
structure Reader where
  state : SequenceState := .outside
  showing : Bool := false
deriving Inhabited, Repr, DecidableEq

namespace Reader

/-- Reads a character, and tells whether it is shown. Once a character is shown all printable ones
are, up to the next control, which then continues the sequence that was left; characters beyond
ASCII end that sequence. -/
def read (r : Reader) (c : Char) : Reader × Bool :=
  if r.showing && isPrintable c then
    (⟨if c.toNat < 0x80 then r.state else .outside, true⟩, true)
  else
    let shown := r.state.shows c
    (⟨r.state.next c, shown⟩, shown)

def shown : Reader → List Char → List Char
  | _, [] => []
  | r, c :: rest =>
    let (r', isShown) := r.read c
    if isShown then c :: shown r' rest else shown r' rest

theorem shown_eq_self {cs : List Char} (h : ∀ c ∈ cs, isPrintable c = true) (showing : Bool) :
    shown ⟨.outside, showing⟩ cs = cs := by
  induction cs generalizing showing with
  | nil => rfl
  | cons c rest ih =>
    have hc : isPrintable c = true := h c (by simp)
    have hr := fun b => ih (fun d hd => h d (by simp [hd])) b
    have hn : SequenceState.next .outside c = .outside := by
      have h1 : c ≠ '\x1b' := by rintro rfl; revert hc; decide
      simp [SequenceState.next, h1]
    cases showing <;> simp [shown, read, hc, hn, SequenceState.shows, hr]

end Reader

/-- A text without its control sequences. -/
def withoutControls (text : String) : String :=
  String.ofList (({} : Reader).shown text.toList)

end BlockOutline.Terminal
