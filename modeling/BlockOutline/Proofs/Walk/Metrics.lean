import BlockOutline.Proofs.Walk.Preorder

/-! # Metrics of a tree

What is collected on a walk is what recursion on the tree gives. -/

namespace BlockOutline.Block

variable {α : Type}

/-! ## Levels -/

theorem levels_eq (t : Block α) : t.levels = 1 + levelsAll t.children := by
  cases t
  rfl

theorem levels_le_levelsAll {c : Block α} {cs : List (Block α)} (h : c ∈ cs) :
    c.levels ≤ levelsAll cs := by
  induction cs with
  | nil => cases h
  | cons d ds ih =>
      rw [levelsAll]
      rcases List.mem_cons.mp h with rfl | h
      · exact Nat.le_max_left _ _
      · exact Nat.le_trans (ih h) (Nat.le_max_right _ _)

/-- Some child has all the levels that there are below a block, unless there are no children. -/
theorem exists_levels_eq_levelsAll {cs : List (Block α)} (h : cs ≠ []) :
    ∃ c ∈ cs, c.levels = levelsAll cs := by
  induction cs with
  | nil => exact absurd rfl h
  | cons d ds ih =>
      rw [levelsAll]
      by_cases hds : ds = []
      · subst hds
        exact ⟨d, by simp, by simp [levelsAll]⟩
      · obtain ⟨c, hc, hlevels⟩ := ih hds
        rcases Nat.le_total (levelsAll ds) d.levels with hle | hle
        · exact ⟨d, by simp, by omega⟩
        · exact ⟨c, by simp [hc], by omega⟩

theorem mem_preorder_iff {t : Block α} {v : Visit α} :
    v ∈ t.preorder ↔ v = ⟨0, t⟩ ∨ ∃ c ∈ t.children, ∃ w ∈ c.preorder, v = w.deepen 1 := by
  rw [preorder_eq]
  simp [eq_comm]

theorem depth_lt_levels {t : Block α} {v : Visit α} (h : v ∈ t.preorder) : v.depth < t.levels := by
  induction t generalizing v with
  | mk prototype statements children ih =>
      rw [levels_eq]
      rcases mem_preorder_iff.mp h with rfl | ⟨c, hc, w, hw, rfl⟩
      · simp only
        omega
      · have hdepth := ih c hc hw
        have hlevels : c.levels ≤ levelsAll children := levels_le_levelsAll hc
        simp only [Visit.deepen]
        omega

theorem exists_deepest (t : Block α) : ∃ v ∈ t.preorder, v.depth + 1 = t.levels := by
  induction t with
  | mk prototype statements children ih =>
      by_cases hchildren : children = []
      · subst hchildren
        refine ⟨⟨0, ⟨prototype, statements, []⟩⟩, ?_, ?_⟩
        · simp [preorder]
        · simp [levels, levelsAll]
      · obtain ⟨c, hc, hlevels⟩ := exists_levels_eq_levelsAll hchildren
        obtain ⟨w, hw, hdepth⟩ := ih c hc
        refine ⟨w.deepen 1, mem_preorder_iff.mpr (.inr ⟨c, hc, w, hw, rfl⟩), ?_⟩
        simp only [Visit.deepen, levels]
        omega

/-- A walk meets some block on the last level, and none below it. -/
theorem max?_map_depth (t : Block α) {f : ℕ → ℕ} (hf : ∀ m n, m ≤ n → f m ≤ f n) :
    (t.preorder.map fun v => f v.depth).max? = some (f (t.levels - 1)) := by
  refine List.max?_eq_some_iff.mpr ⟨?_, ?_⟩
  · obtain ⟨v, hv, hdepth⟩ := exists_deepest t
    rw [← hdepth, Nat.add_sub_cancel]
    exact List.mem_map_of_mem hv
  · intro n hn
    obtain ⟨v, hv, rfl⟩ := List.mem_map.mp hn
    exact hf _ _ (Nat.le_sub_one_of_lt (depth_lt_levels hv))

/-- The greatest of the depths that a walk meets tells the levels. -/
theorem max?_depths (t : Block α) : (t.preorder.map (·.depth + 1)).max? = some t.levels := by
  have hmax := max?_map_depth t fun m n h => Nat.add_le_add_right h 1
  rw [hmax, levels_eq, Nat.add_sub_cancel_left, Nat.add_comm]

theorem height_eq_levels (t : Block α) : t.height = t.levels := by
  rw [height, visits_eq_preorder, max?_depths, Option.getD_some]

/-! ## Blocks, prototypes and statements -/

theorem blockCount_eq_size (t : Block α) : t.blockCount = t.size := by
  rw [blockCount, blocks_eq_preorder, List.length_map, length_preorder]

theorem allPrototypes_eq_map_visits (t : Block α) :
    t.allPrototypes = t.visits.map (·.block.prototype) := by
  rw [allPrototypes, blocks_eq_preorder, visits_eq_preorder, List.map_map]
  rfl

theorem allStatements_eq_flatMap_visits (t : Block α) :
    t.allStatements = t.visits.flatMap (·.block.statements) := by
  rw [allStatements, blocks_eq_preorder, visits_eq_preorder, List.flatMap_map]

theorem prototypesBelow_eq (t : Block α) :
    t.prototypesBelow = t.prototype :: t.children.flatMap prototypesBelow := by
  have hall (bs : List (Block α)) : prototypesBelowAll bs = bs.flatMap prototypesBelow := by
    induction bs with
    | nil => rfl
    | cons b bs ih => simp [prototypesBelowAll, ih]
  obtain ⟨prototype, statements, children⟩ := t
  rw [prototypesBelow, hall]

theorem statementsBelow_eq (t : Block α) :
    t.statementsBelow = t.statements ++ t.children.flatMap statementsBelow := by
  have hall (bs : List (Block α)) : statementsBelowAll bs = bs.flatMap statementsBelow := by
    induction bs with
    | nil => rfl
    | cons b bs ih => simp [statementsBelowAll, ih]
  obtain ⟨prototype, statements, children⟩ := t
  rw [statementsBelow, hall]

/-- What a tree shows if it shows its root and then the trees of its children is what its blocks
show in their order. -/
theorem flatMap_preorder {β : Type} (shown : Block α → List β) (below : Block α → List β)
    (hbelow : ∀ t, below t = shown t ++ t.children.flatMap below) (t : Block α) :
    (t.preorder.flatMap fun v => shown v.block) = below t := by
  induction t with
  | mk prototype statements children ih =>
      rw [hbelow, preorder_eq, List.flatMap_cons, List.flatMap_assoc]
      congr 1
      refine List.flatMap_congr ?_
      intro c hc
      rw [List.flatMap_map, ← ih c hc]
      rfl

theorem allPrototypes_eq (t : Block α) : t.allPrototypes = t.prototypesBelow := by
  rw [allPrototypes, blocks_eq_preorder, List.map_map, ← List.flatMap_singleton' (List.map _ _),
    List.flatMap_map]
  exact flatMap_preorder (fun b => [b.prototype]) prototypesBelow prototypesBelow_eq t

theorem allStatements_eq (t : Block α) : t.allStatements = t.statementsBelow := by
  rw [allStatements, blocks_eq_preorder, List.flatMap_map]
  exact flatMap_preorder statements statementsBelow statementsBelow_eq t

end BlockOutline.Block
