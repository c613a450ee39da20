/-!
How similar two words are. Letters match if they are equal and stand at nearly the same position;
the similarity is the mean of three fractions: the matching letters among those of each word, and
the matching letters that come in the same order among all matching ones.
-/

namespace BlockOutline.Text

namespace Similarity

/-- Marks the first unmarked letter `c` between two positions. -/
def mark? (c : Char) (low high : Nat) :
    (position : Nat) → List (Char × Bool) → Option (List (Char × Bool))
  | _, [] => none
  | position, (d, marked) :: rest =>
    if low ≤ position ∧ position ≤ high ∧ c = d ∧ ¬marked then some ((d, true) :: rest)
    else (mark? c low high (position + 1) rest).map ((d, marked) :: ·)

/-- The letters of a word that have a partner, and the other word with the partners marked. Each
letter takes the first free partner that is no further away than `reach`. -/
def pairUp (reach : Nat) :
    (position : Nat) → List Char → List (Char × Bool) → List Char × List (Char × Bool)
  | _, [], other => ([], other)
  | position, c :: rest, other =>
    match mark? c (position - reach) (position + reach) 0 other with
    | none => pairUp reach (position + 1) rest other
    | some other' =>
      let (paired, last) := pairUp reach (position + 1) rest other'
      (c :: paired, last)

/-- The letters of two words that match, each in the order of its own word. -/
def matching (a b : List Char) : List Char × List Char :=
  let reach := max a.length b.length / 2 - 1
  let (inA, marked) := pairUp reach 0 a (b.map (·, false))
  (inA, (marked.filter (·.2)).map (·.1))

/-- How many pairs of matching letters have changed places. -/
def swaps (inA inB : List Char) : Nat :=
  ((inA.zip inB).filter fun (c, d) => c ≠ d).length / 2

end Similarity

/-- The similarity of two words, between nothing and one. -/
def similarity (a b : String) : Float :=
  let (inA, inB) := Similarity.matching a.toList b.toList
  let part (k n : Nat) : Float := k.toFloat / n.toFloat
  let k := inA.length
  if a.isEmpty ∧ b.isEmpty then 1
  else if k = 0 then 0
  else (part k a.length + part k b.length + part (k - Similarity.swaps inA inB) k) / 3

/-- The candidates whose names have more than seven tenths in common with a word, the most similar
one last. -/
def similarTo {α : Type} (name : α → String) (word : String) (candidates : List α) : List α :=
  let scored := candidates.map fun c => (similarity word (name c), c)
  ((scored.filter (·.1 > 0.7)).mergeSort fun c d => c.1 ≤ d.1).map (·.2)

end BlockOutline.Text
