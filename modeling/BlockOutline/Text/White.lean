import BlockOutline.Text.Ranges

/-!
White space: the characters with the Unicode property of that name.
-/

namespace BlockOutline.Text

/-- The code points of white space. -/
def whiteRanges : List (Nat × Nat) :=
  [(0x9, 0xD), (0x20, 0x20), (0x85, 0x85), (0xA0, 0xA0), (0x1680, 0x1680), (0x2000, 0x200A),
    (0x2028, 0x2029), (0x202F, 0x202F), (0x205F, 0x205F), (0x3000, 0x3000)]

example : (whiteRanges.map fun (first, last) => last - first + 1).sum = 25 := by decide

def isWhite (c : Char) : Bool :=
  inRanges whiteRanges c

end BlockOutline.Text
