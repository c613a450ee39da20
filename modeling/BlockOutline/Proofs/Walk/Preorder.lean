import BlockOutline.Block.Walk
import Mathlib.Data.List.Basic

/-! # The order in which a walk meets the blocks of a tree -/

namespace BlockOutline

/-! ## Asking a traversal a number of times -/

namespace Traversal

variable {σ β : Type} [Traversal σ β]

theorem advance_of_eq_none {s : σ} (h : next? s = none) (k : ℕ) :
    advance k s = (List.replicate k none, s) := by
  induction k with
  | zero => rfl
  | succ k ih => simp only [advance, h, ih, List.replicate_succ]

theorem advance_of_eq_some {s s' : σ} {b : β} (h : next? s = some (b, s')) (k : ℕ) :
    advance (k + 1) s = (some b :: (advance k s').1, (advance k s').2) := by
  simp only [advance, h]

/-- What asking a traversal `k` times shows if `items` are all that it still has: the first `k` of
them and refusals after the last one, and a state that has the others. -/
structure Yields (s : σ) (items : List β) (k : ℕ) : Prop where
  answers : (advance k s).1 = (items.take k).map some ++ List.replicate (k - items.length) none
  rest : toList (advance k s).2 = items.drop k
  exhausted_iff : next? (advance k s).2 = none ↔ items.length ≤ k

theorem yields_toList (s : σ) (k : ℕ) : Yields s (toList s) k := by
  induction k generalizing s with
  | zero =>
      refine ⟨by simp [advance], rfl, ?_⟩
      rw [advance, ← toList_eq_nil_iff, Nat.le_zero, List.length_eq_zero_iff]
  | succ k ih =>
      cases h : next? s with
      | none =>
          rw [toList_of_eq_none h]
          refine ⟨?_, ?_, ?_⟩
          · simp [advance_of_eq_none h]
          · simp [advance_of_eq_none h, toList_of_eq_none h]
          · simp [advance_of_eq_none h, h]
      | some next =>
          obtain ⟨b, s'⟩ := next
          obtain ⟨answers, rest, exhausted_iff⟩ := ih s'
          rw [toList_of_eq_some h]
          refine ⟨?_, ?_, ?_⟩
          · simp [advance_of_eq_some h, answers]
          · simp [advance_of_eq_some h, rest]
          · simp [advance_of_eq_some h, exhausted_iff]

/-- A list that loses its first item whenever a traversal hands out an item is what the traversal
still has. -/
theorem toList_eq_of_unfold (items : σ → List β) (nil : ∀ s, next? s = none → items s = [])
    (cons : ∀ s b s', next? s = some (b, s') → items s = b :: items s') (s : σ) :
    toList s = items s := by
  cases h : next? s with
  | none => rw [toList_of_eq_none h, nil s h]
  | some next =>
      obtain ⟨b, s'⟩ := next
      rw [toList_of_eq_some h, cons s b s' h, toList_eq_of_unfold items nil cons s']
termination_by remaining s
decreasing_by exact remaining_lt h

end Traversal

/-! ## The stack of a walk -/

namespace Visit

variable {α : Type}

theorem deepen_zero : (deepen 0 : Visit α → Visit α) = id :=
  rfl

theorem deepen_deepen (m n : ℕ) (v : Visit α) : (v.deepen m).deepen n = v.deepen (m + n) := by
  simp [deepen, Nat.add_assoc]

/-- The tree below a visited block in depth-first order, met from where the block was met. -/
def subtree (v : Visit α) : List (Visit α) :=
  v.block.preorder.map (deepen v.depth)

theorem subtree_eq (v : Visit α) : v.subtree = v :: v.below.flatMap subtree := by
  obtain ⟨depth, b⟩ := v
  rw [subtree, Block.preorder_eq]
  simp only [List.map_cons, List.map_flatMap, below, List.flatMap_map, subtree]
  congr 1
  · simp [deepen]
  · congr 1
    funext c
    simp [Function.comp_def, deepen_deepen, Nat.add_comm]

end Visit

variable {α : Type}

/-- What a walk has still to meet is the depth-first order of the trees on its stack. -/
theorem Walk.toList_eq (w : Walk α) : w.toList = w.pending.flatMap Visit.subtree := by
  apply Traversal.toList_eq_of_unfold fun w : Walk α => w.pending.flatMap Visit.subtree
  · intro w h
    rw [(next?_eq_none_iff w).mp h, List.flatMap_nil]
  · intro w v w' h
    obtain ⟨rest, before, after⟩ := pending_of_next? h
    rw [before, after, List.flatMap_cons, Visit.subtree_eq v, List.flatMap_append, List.cons_append]

theorem Iter.toList_eq (i : Iter α) : i.toList = i.walk.toList.map Visit.block := by
  apply Traversal.toList_eq_of_unfold fun i : Iter α => i.walk.toList.map Visit.block
  · intro i h
    have hw : i.walk.next? = none := Option.map_eq_none_iff.mp h
    rw [Walk.toList, Traversal.toList_of_eq_none hw, List.map_nil]
  · intro i b i' h
    obtain ⟨depth, hw⟩ := walk_of_next? h
    rw [Walk.toList, Traversal.toList_of_eq_some hw, List.map_cons, Walk.toList]

/-! ## The whole tree -/

namespace Block

theorem visits_eq_preorder (t : Block α) : t.visits = t.preorder := by
  rw [visits, Walk.toList_eq, Walk.pending_start, List.flatMap_singleton, Visit.subtree,
    Visit.deepen_zero, List.map_id]

theorem blocks_eq_preorder (t : Block α) : t.blocks = t.preorder.map Visit.block := by
  rw [blocks, Iter.toList_eq, ← visits_eq_preorder]
  rfl

theorem length_preorder (t : Block α) : t.preorder.length = t.size := by
  induction t with
  | mk prototype statements children ih =>
      have hbelow : (preorderBelow children).length = sizeAll children := by
        induction children with
        | nil => rfl
        | cons c cs ihs =>
            have hrest := ihs fun c hc => ih c (List.mem_cons_of_mem _ hc)
            rw [preorderBelow, sizeAll, List.length_append, List.length_map, hrest,
              ih c List.mem_cons_self]
      rw [preorder, size, List.length_cons, hbelow, Nat.add_comm]

/-- Asked any number of times, the walk over a tree meets its blocks in depth-first order with
their depths, an iteration meets them without, and each ends with the last block. -/
theorem yields_preorder (t : Block α) (k : ℕ) :
    Traversal.Yields (Walk.start t) t.preorder k ∧
      Traversal.Yields (Iter.start t) (t.preorder.map Visit.block) k ∧
      t.preorder.length = t.size := by
  refine ⟨?_, ?_, length_preorder t⟩
  · rw [← visits_eq_preorder]
    exact Traversal.yields_toList (Walk.start t) k
  · rw [← blocks_eq_preorder]
    exact Traversal.yields_toList (Iter.start t) k

end Block

end BlockOutline
