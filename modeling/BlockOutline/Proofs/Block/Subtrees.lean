import Mathlib.Order.CompletePartialOrder
import Mathlib.Order.Interval.Set.Disjoint
import BlockOutline.Proofs.Block.Splicing
import BlockOutline.Proofs.Walk.Pending

/-! # Subtrees

The walk over a block that is nested in a tree is one piece of the walk over the tree. Two such
pieces lie apart, unless one of the blocks is nested in the other. -/

namespace BlockOutline.Block

variable {α : Type}

/-! ## The place of a block -/

theorem visits_eq_cons (t : Block α) : t.visits = ⟨0, t⟩ :: preorderBelow t.children := by
  cases t
  exact visits_mk _ _ _

theorem getElem?_rank {t b : Block α} {address : List Step} (h : t.locate address = .ok b) :
    t.visits[t.rank address]? = some ⟨address.length, b⟩ := by
  obtain ⟨t', hupdate⟩ := (updateAt_isOk_iff id address t).mpr ⟨b, h⟩
  obtain ⟨before, after, hrank, hvisits, -⟩ := exists_frame h hupdate
  rw [hvisits, ← hrank, visits_eq_cons b, List.append_assoc, List.getElem?_append_right (Nat.le_refl _),
    Nat.sub_self, List.map_cons, List.cons_append, List.getElem?_cons_zero, Visit.deepen,
    Nat.zero_add]

theorem rank_indices_cons {t c : Block α} {i : ℕ} (h : t.children[i]? = some c) (path : List ℕ) :
    t.rank (indices (i :: path)) =
      1 + sizeAll (t.children.take i) + c.rank (indices path) := by
  have hchild : t.child? (.index i) = some c := h
  rw [indices, List.map_cons, rank, hchild]
  rfl

/-- Places below a block are counted from the place of the block. -/
theorem rank_indices_append {t b : Block α} {path : List ℕ} (h : t.locate (indices path) = .ok b)
    (rest : List ℕ) :
    t.rank (indices (path ++ rest)) = t.rank (indices path) + b.rank (indices rest) := by
  induction path generalizing t with
  | nil =>
      cases h
      simp [rank]
  | cons i path ih =>
      obtain ⟨c, hc, h⟩ := locate_indices_cons_iff.mp h
      rw [List.cons_append, rank_indices_cons hc, rank_indices_cons hc, ih h]
      exact (Nat.add_assoc _ _ _).symm

theorem exists_child_of_getElem? {children : List (Block α)} {k : ℕ} {v : Visit α}
    (h : (preorderBelow children)[k]? = some v) :
    ∃ i c j w, children[i]? = some c ∧ k = sizeAll (children.take i) + j ∧
      c.visits[j]? = some w ∧ v = w.deepen 1 := by
  induction children generalizing k with
  | nil => cases h
  | cons c children ih =>
      rw [preorderBelow, ← visits_eq_preorder] at h
      by_cases hk : k < (c.visits.map (Visit.deepen 1)).length
      · rw [List.getElem?_append_left hk, List.getElem?_map, Option.map_eq_some_iff] at h
        obtain ⟨w, hw, rfl⟩ := h
        exact ⟨0, c, k, w, rfl, by simp [sizeAll], hw, rfl⟩
      · rw [Nat.not_lt] at hk
        rw [List.getElem?_append_right hk] at h
        rw [List.length_map, length_visits, blockCount_eq_size] at h hk
        obtain ⟨i, d, j, w, hd, hplace, hw, rfl⟩ := ih h
        refine ⟨i + 1, d, j, w, hd, ?_, hw, rfl⟩
        rw [List.take_succ_cons, sizeAll]
        omega

/-- Every block that a walk meets is at the end of a path, as long as the block lies deep. -/
theorem exists_path {t : Block α} {k : ℕ} {v : Visit α} (h : t.visits[k]? = some v) :
    ∃ path, path.length = v.depth ∧ t.locate (indices path) = .ok v.block ∧
      t.rank (indices path) = k := by
  induction t generalizing k v with
  | mk p ss children ih =>
      rw [visits_mk] at h
      cases k with
      | zero =>
          cases h
          exact ⟨[], rfl, rfl, rfl⟩
      | succ k =>
          obtain ⟨i, c, j, w, hc, rfl, hw, rfl⟩ := exists_child_of_getElem? h
          obtain ⟨path, hlength, hlocate, rfl⟩ := ih c (List.mem_of_getElem? hc) hw
          refine ⟨i :: path, by simp [hlength, Visit.deepen], ?_, ?_⟩
          · exact locate_indices_cons_iff.mpr ⟨c, hc, hlocate⟩
          · rw [rank_indices_cons hc]
            simp only
            omega

/-! ## One piece of the walk -/

/-- The walk over a block as a piece of the walk over a tree, from a place on and some levels further
down: it ends where the depths are back at these levels, and what the block answers is a piece of
what the tree answers. -/
structure PieceAt (t s : Block α) (k levels : ℕ) : Prop where
  walk : (t.visits.drop k).take s.blockCount = s.visits.map (Visit.deepen levels)
  ends : s.visits.map (Visit.deepen levels) =
    ⟨levels, s⟩ :: (t.visits.drop (k + 1)).takeWhile (levels < ·.depth)
  height : s.height + levels ≤ t.height
  prototypes : (t.allPrototypes.drop k).take s.blockCount = s.allPrototypes
  statements : t.allStatements = (t.visits.take k).flatMap (·.block.statements) ++
    s.allStatements ++ (t.visits.drop (k + s.blockCount)).flatMap (·.block.statements)

theorem take_drop_visits {t : Block α} {k : ℕ} {v : Visit α} (h : t.visits[k]? = some v) :
    (t.visits.drop k).take v.block.blockCount = v.block.visits.map (Visit.deepen v.depth) := by
  obtain ⟨rest, hdrop, -⟩ := exists_drop_eq_subtree h
  have hlength : v.subtree.length = v.block.blockCount := by
    rw [Visit.subtree_eq_visits, List.length_map, length_visits]
  rw [hdrop, ← hlength, List.take_left, Visit.subtree_eq_visits]

theorem pieceAt {t : Block α} {k : ℕ} {v : Visit α} (h : t.visits[k]? = some v) :
    PieceAt t v.block k v.depth := by
  have hwalk := take_drop_visits h
  refine ⟨hwalk, ?_, ?_, ?_, ?_⟩
  · rw [← Visit.subtree_eq_visits, ← takeWhile_depth h]
  · rw [height_add_le_iff]
    intro u hu
    have hmem : u.deepen v.depth ∈ t.visits := by
      refine List.mem_of_mem_drop (i := k) (List.mem_of_mem_take (i := v.block.blockCount) ?_)
      rw [hwalk]
      exact List.mem_map_of_mem hu
    have hbound := (height_add_le_iff t 0 t.height).mp (Nat.le_refl _) _ hmem
    simpa [Visit.deepen] using hbound
  · rw [allPrototypes_eq_map_visits, allPrototypes_eq_map_visits, ← List.map_drop, ← List.map_take,
      hwalk, List.map_map]
    rfl
  · have hown : v.block.allStatements =
        ((t.visits.drop k).take v.block.blockCount).flatMap (·.block.statements) := by
      rw [hwalk, List.flatMap_map, allStatements_eq_flatMap_visits]
      rfl
    rw [hown, ← List.flatMap_append, ← List.flatMap_append, List.append_assoc, ← List.drop_drop,
      List.take_append_drop, List.take_append_drop, allStatements_eq_flatMap_visits]

/-! ## Two pieces -/

/-- The places in a walk that a block and all that is nested in it take, from the place of the block
on. -/
def places (k : ℕ) (b : Block α) : Set ℕ :=
  Set.Ico k (k + b.blockCount)

theorem rank_add_blockCount_le {t b : Block α} {address : List Step}
    (h : t.locate address = .ok b) : t.rank address + b.blockCount ≤ t.blockCount := by
  have hplace := getElem?_rank h
  obtain ⟨hlt, -⟩ := List.getElem?_eq_some_iff.mp hplace
  have hlength := congrArg List.length (take_drop_visits hplace)
  simp only [List.length_take, List.length_drop, List.length_map, length_visits] at hlength hlt
  omega

theorem places_append_subset {t b c : Block α} {path rest : List ℕ}
    (hb : t.locate (indices path) = .ok b) (hc : t.locate (indices (path ++ rest)) = .ok c) :
    places (t.rank (indices (path ++ rest))) c ⊆ places (t.rank (indices path)) b := by
  obtain ⟨d, hd, hrest⟩ := locate_indices_append_iff.mp hc
  obtain rfl : b = d := Except.ok.inj (hb.symm.trans hd)
  have hwithin := rank_add_blockCount_le hrest
  refine Set.Ico_subset_Ico ?_ ?_
  · rw [rank_indices_append hb]
    exact Nat.le_add_right _ _
  · rw [rank_indices_append hb, Nat.add_assoc]
    exact Nat.add_le_add_left hwithin _

theorem sizeAll_take_add_size_le {children : List (Block α)} {i j : ℕ} {c : Block α}
    (h : children[i]? = some c) (hij : i < j) :
    sizeAll (children.take i) + c.size ≤ sizeAll (children.take j) := by
  induction children generalizing i j with
  | nil => cases h
  | cons d children ih =>
      obtain ⟨j, rfl⟩ : ∃ j', j = j' + 1 := ⟨j - 1, by omega⟩
      rw [List.take_succ_cons, sizeAll]
      cases i with
      | zero =>
          cases h
          rw [List.take_zero, sizeAll]
          omega
      | succ i =>
          have hrest := ih h (Nat.lt_of_succ_lt_succ hij)
          rw [List.take_succ_cons, sizeAll]
          omega

/-- All that is nested in a child is met before the children after it. -/
theorem rank_add_blockCount_le_of_lt {t c d b : Block α} {i j : ℕ} {p : List ℕ}
    (hc : t.children[i]? = some c) (hd : t.children[j]? = some d) (hij : i < j)
    (hb : c.locate (indices p) = .ok b) (q : List ℕ) :
    t.rank (indices (i :: p)) + b.blockCount ≤ t.rank (indices (j :: q)) := by
  have hwithin := rank_add_blockCount_le hb
  have hbefore := sizeAll_take_add_size_le hc hij
  rw [blockCount_eq_size c] at hwithin
  rw [rank_indices_cons hc, rank_indices_cons hd]
  omega

/-- Where two paths part, they go to different children. -/
theorem apart_of_not_prefix {t b c : Block α} {p q : List ℕ} (hb : t.locate (indices p) = .ok b)
    (hc : t.locate (indices q) = .ok c) (hpq : ¬p <+: q) (hqp : ¬q <+: p) :
    t.rank (indices p) + b.blockCount ≤ t.rank (indices q) ∨
      t.rank (indices q) + c.blockCount ≤ t.rank (indices p) := by
  induction p generalizing t q with
  | nil => exact absurd List.nil_prefix hpq
  | cons i p ih =>
      cases q with
      | nil => exact absurd List.nil_prefix hqp
      | cons j q =>
          obtain ⟨d, hd, hb⟩ := locate_indices_cons_iff.mp hb
          obtain ⟨e, he, hc⟩ := locate_indices_cons_iff.mp hc
          rcases Nat.lt_trichotomy i j with hij | rfl | hij
          · exact .inl (rank_add_blockCount_le_of_lt hd he hij hb q)
          · -- The paths go on together and part further down.
            obtain rfl : d = e := Option.some.inj (hd.symm.trans he)
            rw [List.cons_prefix_cons, not_and] at hpq hqp
            have hapart := ih hb hc (hpq rfl) (hqp rfl)
            rw [rank_indices_cons hd, rank_indices_cons hd]
            omega
          · exact .inr (rank_add_blockCount_le_of_lt he hd hij hc p)

/-- How the places of two blocks lie to each other, by the paths to the blocks. -/
inductive Nesting (p q : List ℕ) (here there : Set ℕ) : Prop where
  | inside (below : q <+: p) (subset : here ⊆ there)
  | around (above : p <+: q) (subset : there ⊆ here)
  | apart (beside : ¬p <+: q ∧ ¬q <+: p) (disjoint : Disjoint here there)

theorem nesting {t b c : Block α} {p q : List ℕ} (hb : t.locate (indices p) = .ok b)
    (hc : t.locate (indices q) = .ok c) :
    Nesting p q (places (t.rank (indices p)) b) (places (t.rank (indices q)) c) := by
  by_cases hpq : p <+: q
  · obtain ⟨rest, rfl⟩ := hpq
    exact .around (List.prefix_append p rest) (places_append_subset hb hc)
  · by_cases hqp : q <+: p
    · obtain ⟨rest, rfl⟩ := hqp
      exact .inside (List.prefix_append q rest) (places_append_subset hc hb)
    · refine .apart ⟨hpq, hqp⟩ ?_
      have hapart := apart_of_not_prefix hb hc hpq hqp
      rw [places, places, Set.Ico_disjoint_Ico]
      omega

/-- The places of two blocks that a walk meets are apart or nested. -/
theorem disjoint_or_subset {t : Block α} {i j : ℕ} {v w : Visit α} (hv : t.visits[i]? = some v)
    (hw : t.visits[j]? = some w) :
    Disjoint (places i v.block) (places j w.block) ∨ places i v.block ⊆ places j w.block ∨
      places j w.block ⊆ places i v.block := by
  obtain ⟨p, -, hb, rfl⟩ := exists_path hv
  obtain ⟨q, -, hc, rfl⟩ := exists_path hw
  cases nesting hb hc with
  | inside _ subset => exact .inr (.inl subset)
  | around _ subset => exact .inr (.inr subset)
  | apart _ disjoint => exact .inl disjoint

/-- The walk over a block that an address leads to is a piece of the walk over the whole tree, from
the place of the block to where the depths are back at its own; so heights add up, and prototypes and
statements are pieces as well. A path leads to every place of the walk. The places of two blocks are
nested as the paths to the blocks are, or else disjoint. -/
theorem subtrees_are_pieces (t : Block α) :
    (∀ address s, t.locate address = .ok s → PieceAt t s (t.rank address) address.length) ∧
      (∀ k v, t.visits[k]? = some v → ∃ path, path.length = v.depth ∧
        t.locate (indices path) = .ok v.block ∧ t.rank (indices path) = k) ∧
      (∀ p q b c, t.locate (indices p) = .ok b → t.locate (indices q) = .ok c →
        Nesting p q (places (t.rank (indices p)) b) (places (t.rank (indices q)) c)) ∧
      ∀ i j v w, t.visits[i]? = some v → t.visits[j]? = some w →
        Disjoint (places i v.block) (places j w.block) ∨ places i v.block ⊆ places j w.block ∨
          places j w.block ⊆ places i v.block := by
  refine ⟨?_, fun k v => exists_path, fun p q b c => nesting, fun i j v w => disjoint_or_subset⟩
  intro address s h
  exact pieceAt (getElem?_rank h)

/-- The subtree of a first child lies before that of its sibling, and around that of its own child,
which is equal to the sibling. -/
theorem subtrees_are_pieces_alike :
    let s : Block ℕ := ⟨some "g", [2], []⟩
    let c : Block ℕ := ⟨none, [1], [s]⟩
    let t : Block ℕ := ⟨some "f", [], [c, s]⟩
    PieceAt t s 2 2 ∧ PieceAt t s 3 1 ∧
      (∃ path, path.length = 2 ∧ t.locate (indices path) = .ok s ∧ t.rank (indices path) = 2) ∧
      Nesting [0] [0, 0] (places 1 c) (places 2 s) ∧ Nesting [0] [1] (places 1 c) (places 3 s) ∧
      (Disjoint (places 2 s) (places 3 s) ∨ places 2 s ⊆ places 3 s ∨ places 3 s ⊆ places 2 s) := by
  intro s c t
  obtain ⟨pieces, paths, nested, apart⟩ := subtrees_are_pieces t
  have hleaf : t.locate [.index 0, .last] = .ok s := rfl
  have hsibling : t.locate (indices [1]) = .ok s := rfl
  have hfirst : t.visits[2]? = some ⟨2, s⟩ := by decide +kernel
  have hsecond : t.visits[3]? = some ⟨1, s⟩ := by decide +kernel
  exact ⟨pieces _ s hleaf, pieces _ s hsibling, paths 2 ⟨2, s⟩ hfirst,
    nested [0] [0, 0] c s rfl rfl, nested [0] [1] c s rfl rfl, apart 2 3 _ _ hfirst hsecond⟩

end BlockOutline.Block
