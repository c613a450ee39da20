import Mathlib.Algebra.Ring.Nat
import BlockOutline.Block.Listing
import BlockOutline.Proofs.Walk.Metrics

/-! # Queries by recursion

A query over a whole tree is answered by the block itself and by the answers of its children, and
the listing of a tree shows its numbers block by block. -/

namespace BlockOutline

variable {α : Type}

/-- What a line in the listing of a tree shows of a block. -/
structure TreeEntry where
  depth : ℕ
  prototype : Option String
  statementCount : ℕ

namespace TreeEntry

def ofVisit (v : Visit α) : TreeEntry :=
  ⟨v.depth, v.block.prototype, v.block.statementCount⟩

def line (e : TreeEntry) : String :=
  String.ofList (List.replicate (2 * e.depth) ' ') ++ Block.displayName e.prototype ++ " ("
    ++ Block.counted e.statementCount "statement" "statements" ++ ")"

end TreeEntry

namespace Block

/-! ## Levels -/

theorem max?_map_levels {cs : List (Block α)} (h : cs ≠ []) :
    (cs.map levels).max? = some (levelsAll cs) := by
  refine List.max?_eq_some_iff.mpr ⟨?_, ?_⟩
  · obtain ⟨c, hc, hlevels⟩ := exists_levels_eq_levelsAll h
    exact List.mem_map.mpr ⟨c, hc, hlevels⟩
  · intro n hn
    obtain ⟨c, hc, rfl⟩ := List.mem_map.mp hn
    exact levels_le_levelsAll hc

theorem height_eq (t : Block α) :
    t.height = ((t.children.map height).max?).elim 1 (1 + ·) := by
  have hlevels : t.children.map height = t.children.map levels :=
    List.map_congr_left fun c _ => height_eq_levels c
  rw [height_eq_levels, levels_eq, hlevels]
  by_cases hchildren : t.children = []
  · simp [hchildren, levelsAll]
  · rw [max?_map_levels hchildren, Option.elim_some]

/-- A bound on the depths that a walk meets is a bound on the height. -/
theorem height_add_le_iff (t : Block α) (m n : ℕ) :
    t.height + m ≤ n ↔ ∀ v ∈ t.visits, v.depth + m < n := by
  rw [height_eq_levels, visits_eq_preorder]
  constructor
  · intro h v hv
    have := depth_lt_levels hv
    omega
  · intro h
    obtain ⟨v, hv, hdepth⟩ := exists_deepest t
    have := h v hv
    omega

/-! ## Blocks, prototypes and statements -/

theorem sizeAll_eq_sum (bs : List (Block α)) : sizeAll bs = (bs.map size).sum := by
  induction bs with
  | nil => rfl
  | cons b bs ih => simp [sizeAll, ih]

theorem blockCount_eq (t : Block α) : t.blockCount = 1 + (t.children.map blockCount).sum := by
  have hsize : t.children.map blockCount = t.children.map size :=
    List.map_congr_left fun c _ => blockCount_eq_size c
  rw [blockCount_eq_size, size_eq, sizeAll_eq_sum, hsize]

theorem allPrototypes_eq_cons (t : Block α) :
    t.allPrototypes = t.prototype :: t.children.flatMap allPrototypes := by
  rw [allPrototypes_eq, prototypesBelow_eq]
  simp only [funext allPrototypes_eq]

theorem allStatements_eq_append (t : Block α) :
    t.allStatements = t.statements ++ t.children.flatMap allStatements := by
  rw [allStatements_eq, statementsBelow_eq]
  simp only [funext allStatements_eq]

theorem length_allPrototypes (t : Block α) : t.allPrototypes.length = t.blockCount := by
  rw [allPrototypes, List.length_map, blockCount]

/-! ## The listing of a tree -/

def treeEntries (t : Block α) : List TreeEntry :=
  t.visits.map TreeEntry.ofVisit

theorem treeListing_eq (t : Block α) : t.treeListing = listed (t.treeEntries.map TreeEntry.line) := by
  rw [treeListing, treeEntries, List.map_map]
  rfl

theorem sum_statementCounts (t : Block α) :
    (t.treeEntries.map (·.statementCount)).sum = t.allStatements.length := by
  rw [treeEntries, allStatements, List.length_flatMap, blocks_eq_preorder, visits_eq_preorder]
  simp only [List.map_map]
  rfl

theorem max?_treeEntries (t : Block α) :
    (t.treeEntries.map (·.depth)).max? = some (t.height - 1) := by
  rw [treeEntries, visits_eq_preorder, height_eq_levels, List.map_map]
  exact max?_map_depth t fun _ _ h => h

/-- Every query is the recursion on the tree: the height is one for a leaf and one more than the
greatest height of a child otherwise, blocks are counted with those of the children, and prototypes
and statements are followed by those of the children in their order. The walk always has a deepest
block, so the height never falls back on a default. In the listing of the tree there is a line for
each block; the counts of statements in these lines add up to all statements, and the line furthest
in is at the depth of the last level. -/
theorem queries_by_recursion (t : Block α) :
    ((t.visits.map (·.depth + 1)).max? = some t.height ∧
        t.height = ((t.children.map height).max?).elim 1 (1 + ·)) ∧
      t.blockCount = 1 + (t.children.map blockCount).sum ∧
      t.allPrototypes = t.prototype :: t.children.flatMap allPrototypes ∧
      t.allStatements = t.statements ++ t.children.flatMap allStatements ∧
      t.allPrototypes.length = t.blockCount ∧
      t.treeListing = listed (t.treeEntries.map TreeEntry.line) ∧
      (t.treeEntries.map (·.statementCount)).sum = t.allStatements.length ∧
      (t.treeEntries.map (·.depth)).max? = some (t.height - 1) := by
  refine ⟨⟨?_, height_eq t⟩, blockCount_eq t, allPrototypes_eq_cons t, allStatements_eq_append t,
    length_allPrototypes t, treeListing_eq t, sum_statementCounts t, max?_treeEntries t⟩
  rw [visits_eq_preorder, height_eq_levels]
  exact max?_depths t

end Block

end BlockOutline
