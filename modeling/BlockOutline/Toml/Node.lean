import BlockOutline.Toml.Number

/-!
TOML documents as trees. Every value knows the bytes that it was read from, and every key the bytes
of its name; entries of a table are kept in the order in which their keys first appear.
-/

namespace BlockOutline.Toml

inductive Scalar where
  | string (text : String)
  | integer (value : Int)
  | float (value : Binary64)
  | boolean (value : Bool)
  | dateTime (value : DateTime)
deriving Inhabited, Repr, BEq, DecidableEq

structure Key where
  name : String
  span : Span
deriving Inhabited, Repr, BEq, DecidableEq

inductive Node where
  | scalar (span : Span) (value : Scalar)
  | array (span : Span) (items : List Node)
  | table (span : Span) (entries : List (Key × Node))
deriving Inhabited, Repr

namespace Node

def span : Node → Span
  | scalar span _ | array span _ | table span _ => span

mutual

def decEq : (a b : Node) → Decidable (a = b)
  | scalar s v, scalar t w => decidable_of_iff (s = t ∧ v = w) (by simp)
  | array s xs, array t ys =>
    have := decEqItems xs ys
    decidable_of_iff (s = t ∧ xs = ys) (by simp)
  | table s xs, table t ys =>
    have := decEqEntries xs ys
    decidable_of_iff (s = t ∧ xs = ys) (by simp)
  | scalar .., array .. | scalar .., table .. | array .., scalar .. | array .., table ..
  | table .., scalar .. | table .., array .. => isFalse (by simp)
termination_by structural a => a

def decEqItems : (xs ys : List Node) → Decidable (xs = ys)
  | [], [] => isTrue rfl
  | x :: xs, y :: ys =>
    have := decEq x y
    have := decEqItems xs ys
    decidable_of_iff (x = y ∧ xs = ys) (by simp)
  | [], _ :: _ | _ :: _, [] => isFalse (by simp)
termination_by structural xs => xs

def decEqEntries : (xs ys : List (Key × Node)) → Decidable (xs = ys)
  | [], [] => isTrue rfl
  | (k, x) :: xs, (l, y) :: ys =>
    have := decEq x y
    have := decEqEntries xs ys
    decidable_of_iff (k = l ∧ x = y ∧ xs = ys) (by simp [and_assoc])
  | [], _ :: _ | _ :: _, [] => isFalse (by simp)
termination_by structural xs => xs

end

instance : DecidableEq Node :=
  decEq

end Node

end BlockOutline.Toml
