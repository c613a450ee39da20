/-!
Traversals: states that hand out items one after the other and are exhausted at some time. A state
is a value, so a copy of it hands out the same items, whatever becomes of the state itself.
-/

namespace BlockOutline

/-- A way to ask a state for its next item. Every item brings the end nearer. -/
class Traversal (σ : Type) (β : outParam Type) where
  next? : σ → Option (β × σ)
  remaining : σ → Nat
  remaining_lt {s s' : σ} {b : β} : next? s = some (b, s') → remaining s' < remaining s

namespace Traversal

variable {σ β : Type} [Traversal σ β]

def toList (s : σ) : List β :=
  match _h : next? s with
  | none => []
  | some (b, s') => b :: toList s'
termination_by remaining s
decreasing_by exact remaining_lt _h

/-- Asks for the next item a number of times: the answers, and the state that is left. An exhausted
state stays as it is. -/
def advance : Nat → σ → List (Option β) × σ
  | 0, s => ([], s)
  | n + 1, s =>
    match next? s with
    | none => let (answers, s') := advance n s; (none :: answers, s')
    | some (b, s₁) => let (answers, s') := advance n s₁; (some b :: answers, s')

theorem toList_of_eq_none {s : σ} (h : next? s = none) : toList s = [] := by
  rw [toList]
  split
  · rfl
  · rename_i h'
    rw [h] at h'
    cases h'

theorem toList_of_eq_some {s s' : σ} {b : β} (h : next? s = some (b, s')) :
    toList s = b :: toList s' := by
  rw [toList]
  split
  · rename_i h'
    rw [h] at h'
    cases h'
  · rename_i h'
    rw [h] at h'
    cases h'
    rfl

theorem toList_eq_nil_iff (s : σ) : toList s = [] ↔ next? s = none := by
  cases h : next? s with
  | none => simp [toList_of_eq_none h]
  | some next =>
    obtain ⟨b, s'⟩ := next
    simp [toList_of_eq_some h]

end Traversal

end BlockOutline
