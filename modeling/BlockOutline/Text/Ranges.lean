/-!
Sets of code points given as ascending lists of closed ranges.
-/

namespace BlockOutline.Text

/-- Whether a character lies in one of some closed ranges of code points. -/
def inRanges (ranges : List (Nat × Nat)) (c : Char) : Bool :=
  ranges.any fun (first, last) => first ≤ c.toNat && c.toNat ≤ last

end BlockOutline.Text
