import Mathlib.Data.List.Basic
import BlockOutline.Proofs.Walk.Preorder

/-! # What a walk has still to meet

The stack of a walk never leads deeper down than its top. So the blocks below a block that is met
come next, and they end where the depths are back at the depth of that block. -/

namespace BlockOutline

/-! ## Invariants of a traversal -/

namespace Traversal

variable {σ β : Type} [Traversal σ β]

/-- What every step keeps holds after any number of steps. -/
theorem advance_preserves (P : σ → Prop)
    (step : ∀ s b s', next? s = some (b, s') → P s → P s') {s : σ} (hs : P s) (k : ℕ) :
    P (advance k s).2 := by
  induction k generalizing s with
  | zero => exact hs
  | succ k ih =>
      cases h : next? s with
      | none => simpa [advance_of_eq_none h] using hs
      | some next =>
          obtain ⟨b, s'⟩ := next
          rw [advance_of_eq_some h]
          exact ih (step s b s' h hs)

end Traversal

variable {α : Type}

/-! ## Depths on the stack -/

namespace Walk

/-- The trees on the stack are met from deep to shallow. -/
def Rising (w : Walk α) : Prop :=
  w.pending.Pairwise fun v u => u.depth ≤ v.depth

theorem rising_start (root : Block α) : (start root).Rising := by
  simp [Rising]

/-- The children of a block lie deeper than the block, and deeper than all that was below it on the
stack. -/
theorem Rising.next {w w' : Walk α} {v : Visit α} (h : w.next? = some (v, w')) (hw : w.Rising) :
    w'.Rising := by
  obtain ⟨rest, before, after⟩ := pending_of_next? h
  rw [Rising, before, List.pairwise_cons] at hw
  rw [Rising, after, List.pairwise_append]
  refine ⟨?_, hw.2, ?_⟩
  · rw [Visit.below, List.pairwise_map]
    exact List.pairwise_of_forall fun _ _ => Nat.le_refl _
  · intro c hc u hu
    obtain ⟨b, -, rfl⟩ := List.mem_map.mp hc
    exact Nat.le_succ_of_le (hw.1 u hu)

theorem rising_advance (root : Block α) (k : ℕ) : ((start root).advance k).2.Rising :=
  Traversal.advance_preserves Rising (fun _ _ _ h hw => hw.next h) (rising_start root) k

end Walk

/-! ## The blocks below a block -/

namespace Visit

theorem subtree_eq_visits (v : Visit α) : v.subtree = v.block.visits.map (deepen v.depth) := by
  rw [subtree, Block.visits_eq_preorder]

/-- All blocks below a block that is met are met deeper down. -/
theorem lt_depth_of_mem_below {v u : Visit α} (h : u ∈ v.below.flatMap subtree) :
    v.depth < u.depth := by
  obtain ⟨c, hc, hu⟩ := List.mem_flatMap.mp h
  obtain ⟨b, -, rfl⟩ := List.mem_map.mp hc
  obtain ⟨w, -, rfl⟩ := List.mem_map.mp hu
  simp only [deepen]
  omega

end Visit

namespace Block

theorem drop_visits (t : Block α) (k : ℕ) :
    t.visits.drop k = ((Walk.start t).advance k).2.pending.flatMap Visit.subtree := by
  rw [← Walk.toList_eq]
  exact (Traversal.yields_toList (Walk.start t) k).rest.symm

/-- From a block on a walk meets all that is nested in the block, and then goes on no deeper than
the block itself. -/
theorem exists_drop_eq_subtree {t : Block α} {k : ℕ} {v : Visit α} (h : t.visits[k]? = some v) :
    ∃ rest, t.visits.drop k = v.subtree ++ rest ∧ ∀ u ∈ rest.head?, u.depth ≤ v.depth := by
  have hrising := Walk.rising_advance t k
  have hdrop := drop_visits t k
  rw [Walk.Rising] at hrising
  have hhead : (t.visits.drop k).head? = some v := by rw [List.head?_drop, h]
  cases hpending : ((Walk.start t).advance k).2.pending with
  | nil =>
      rw [hdrop, hpending] at hhead
      cases hhead
  | cons top below =>
      rw [hpending, List.flatMap_cons] at hdrop
      rw [hpending, List.pairwise_cons] at hrising
      rw [hdrop, Visit.subtree_eq top] at hhead
      obtain rfl : top = v := Option.some.inj hhead
      refine ⟨below.flatMap Visit.subtree, hdrop, ?_⟩
      intro u hu
      cases below with
      | nil => cases hu
      | cons next below =>
          rw [List.flatMap_cons, Visit.subtree_eq next] at hu
          obtain rfl : next = u := Option.some.inj hu
          exact hrising.1 next List.mem_cons_self

/-- The depths alone show where the blocks below a block end in a walk. -/
theorem takeWhile_depth {t : Block α} {k : ℕ} {v : Visit α} (h : t.visits[k]? = some v) :
    v :: (t.visits.drop (k + 1)).takeWhile (v.depth < ·.depth) = v.subtree := by
  obtain ⟨rest, hdrop, hends⟩ := exists_drop_eq_subtree h
  rw [Visit.subtree_eq] at hdrop ⊢
  have htail : t.visits.drop (k + 1) = v.below.flatMap Visit.subtree ++ rest := by
    rw [← List.drop_drop, hdrop]
    rfl
  have hdeeper : ∀ u ∈ v.below.flatMap Visit.subtree, decide (v.depth < u.depth) = true := by
    intro u hu
    exact decide_eq_true (Visit.lt_depth_of_mem_below hu)
  rw [htail, List.takeWhile_append_of_pos hdeeper]
  have hstop : rest.takeWhile (v.depth < ·.depth) = [] := by
    cases rest with
    | nil => rfl
    | cons u rest =>
        have := hends u rfl
        exact List.takeWhile_cons_of_neg (by simpa using this)
  rw [hstop, List.append_nil]

end Block

end BlockOutline
