import Mathlib.Data.List.Nodup
import Mathlib.Data.List.ReduceOption
import BlockOutline.Proofs.Block.Addresses
import BlockOutline.Proofs.Walk.Pending
import BlockOutline.Proofs.Walk.Queries

/-! # The stack of a walk

The trees on the stack of a walk part what the walk has still to meet: every block that is not met yet
lies in exactly one of them. A step replaces the tree on top by the trees of its children, so all that
leaves the stack is the block that is met. -/

namespace BlockOutline

variable {α : Type}

namespace Walk

open Block (indices)

/-! ## Paths -/

/-- A visit is the one of the block at the end of a path. -/
structure Leads (t : Block α) (path : List ℕ) (v : Visit α) : Prop where
  depth : path.length = v.depth
  block : t.locate (indices path) = .ok v.block

/-- Of two paths neither goes on where the other one ends, so no block lies below both. -/
def Beside (p q : List ℕ) : Prop :=
  ¬p <+: q ∧ ¬q <+: p

theorem beside_siblings {p : List ℕ} {i j : ℕ} (h : i ≠ j) : Beside (p ++ [i]) (p ++ [j]) := by
  simp [Beside, h, h.symm]

theorem Beside.child {p q : List ℕ} (h : Beside p q) (i : ℕ) : Beside (p ++ [i]) q := by
  refine ⟨fun hprefix => h.1 ((List.prefix_append p [i]).trans hprefix), ?_⟩
  intro hprefix
  rcases List.prefix_concat_iff.mp hprefix with rfl | hprefix
  · exact h.1 (List.prefix_append p [i])
  · exact h.2 hprefix

/-- The paths to the children of the block at the end of a path. -/
def childPaths (p : List ℕ) (b : Block α) : List (List ℕ) :=
  (List.range b.children.length).map fun i => p ++ [i]

theorem mem_childPaths_iff {p q : List ℕ} {b : Block α} :
    q ∈ childPaths p b ↔ ∃ i < b.children.length, p ++ [i] = q := by
  simp [childPaths]

theorem Leads.children {t : Block α} {p : List ℕ} {v : Visit α} (h : Leads t p v) :
    List.Forall₂ (Leads t) (childPaths p v.block) v.below := by
  rw [childPaths, Visit.below, List.forall₂_map_left_iff, List.forall₂_map_right_iff,
    List.forall₂_iff_get]
  refine ⟨List.length_range, ?_⟩
  intro i _ hi
  have hchild : v.block.children[i]? = some v.block.children[i] := List.getElem?_eq_getElem hi
  refine ⟨?_, ?_⟩
  · simp [h.depth]
  · simpa using (Block.locate_indices_concat h.block).mpr hchild

/-- What lies below a block, other than the block itself, lies in the trees of its children. -/
theorem Leads.below_iff {t b : Block α} {p path : List ℕ} {v : Visit α} (h : Leads t p v)
    (hpath : t.locate (indices path) = .ok b) :
    p <+: path ∧ path ≠ p ↔ ∃ q ∈ childPaths p v.block, q <+: path := by
  constructor
  · intro hbelow
    obtain ⟨⟨rest, rfl⟩, hne⟩ := hbelow
    cases rest with
    | nil => exact absurd (List.append_nil p) hne
    | cons i rest =>
        obtain ⟨c, hc, hrest⟩ := Block.locate_indices_append_iff.mp hpath
        obtain rfl : v.block = c := Except.ok.inj (h.block.symm.trans hc)
        obtain ⟨d, hd, -⟩ := Block.locate_indices_cons_iff.mp hrest
        obtain ⟨hi, -⟩ := List.getElem?_eq_some_iff.mp hd
        refine ⟨p ++ [i], mem_childPaths_iff.mpr ⟨i, hi, rfl⟩, rest, ?_⟩
        rw [List.append_assoc, List.singleton_append]
  · intro hchild
    obtain ⟨q, hq, hprefix⟩ := hchild
    obtain ⟨i, -, rfl⟩ := mem_childPaths_iff.mp hq
    refine ⟨(List.prefix_append p [i]).trans hprefix, ?_⟩
    rintro rfl
    have hlength := hprefix.length_le
    rw [List.length_append, List.length_singleton] at hlength
    omega

/-! ## What a step keeps -/

/-- How a walk over a tree stands when the blocks at some paths are met: the trees on its stack have
their roots at other paths, they lie apart, and they contain exactly the blocks that are not met. -/
structure Parts (t : Block α) (met roots : List (List ℕ)) (w : Walk α) : Prop where
  stack : List.Forall₂ (Leads t) roots w.pending
  rising : w.Rising
  apart : roots.Pairwise Beside
  once : met.Nodup
  unmet_iff : ∀ path b, t.locate (indices path) = .ok b → (path ∉ met ↔ ∃ p ∈ roots, p <+: path)

theorem parts_start (t : Block α) : Parts t [] [[]] (start t) where
  stack := .cons ⟨rfl, rfl⟩ .nil
  rising := rising_start t
  apart := List.pairwise_singleton _ _
  once := List.nodup_nil
  unmet_iff := by simp

/-- The block on top is met, and the trees of its children come in the place of its own. -/
theorem Parts.next {t : Block α} {met roots : List (List ℕ)} {w w' : Walk α} {v : Visit α}
    (hw : Parts t met roots w) (h : w.next? = some (v, w')) :
    ∃ p roots', Leads t p v ∧ p ∉ met ∧ Parts t (met ++ [p]) roots' w' := by
  obtain ⟨stack, rising, apart, once, unmet_iff⟩ := hw
  obtain ⟨below, before, after⟩ := pending_of_next? h
  rw [before] at stack
  cases stack with
  | @cons p _ rest _ hp hrest =>
      obtain ⟨hbeside, hapart⟩ := List.pairwise_cons.mp apart
      have hfresh : p ∉ met := (unmet_iff p v.block hp.block).mpr ⟨p, by simp, List.prefix_rfl⟩
      refine ⟨p, childPaths p v.block ++ rest, hp, hfresh, ?_, rising.next h, ?_, ?_, ?_⟩
      · rw [after]
        exact List.rel_append hp.children hrest
      · refine List.pairwise_append.mpr ⟨?_, hapart, ?_⟩
        · rw [childPaths, List.pairwise_map]
          exact List.nodup_range.imp beside_siblings
        · intro q hq r hr
          obtain ⟨i, -, rfl⟩ := mem_childPaths_iff.mp hq
          exact (hbeside r hr).child i
      · rw [← List.concat_eq_append]
        exact once.concat hfresh
      · intro path b hpath
        have hrest : (∃ q ∈ rest, q <+: path) → path ≠ p := by
          rintro ⟨q, hq, hprefix⟩ rfl
          exact (hbeside q hq).2 hprefix
        rw [List.mem_append, List.mem_singleton, not_or, unmet_iff path b hpath]
        simp only [List.mem_append, List.mem_cons, or_and_right, exists_or, exists_eq_left]
        rw [hp.below_iff hpath, and_iff_left_of_imp hrest]

/-- After any number of steps the blocks that were handed out are met as well. -/
theorem Parts.advance {t : Block α} {met roots : List (List ℕ)} {w : Walk α}
    (hw : Parts t met roots w) (k : ℕ) :
    ∃ met' roots', List.Forall₂ (Leads t) met' (w.advance k).1.reduceOption ∧
      Parts t (met ++ met') roots' (w.advance k).2 := by
  induction k generalizing met roots w with
  | zero => exact ⟨[], roots, .nil, by simpa [Walk.advance, Traversal.advance] using hw⟩
  | succ k ih =>
      cases h : w.next? with
      | none =>
          rw [Walk.advance, Traversal.advance_of_eq_none h, List.reduceOption_replicate_none]
          exact ⟨[], roots, .nil, by rwa [List.append_nil]⟩
      | some step =>
          obtain ⟨v, w'⟩ := step
          obtain ⟨p, roots₁, hp, -, hw'⟩ := hw.next h
          obtain ⟨met', roots', hmet, hparts⟩ := ih hw'
          rw [List.append_assoc, List.singleton_append] at hparts
          rw [Walk.advance, Traversal.advance_of_eq_some h, List.reduceOption_cons_of_some]
          exact ⟨p :: met', roots', .cons hp hmet, hparts⟩

/-! ## Depths and numbers -/

/-- The number of blocks in the trees on the stack. -/
def outstanding (w : Walk α) : ℕ :=
  (w.stack.toList.map (·.block.blockCount)).sum

theorem outstanding_eq_remaining (w : Walk α) : w.outstanding = w.remaining := by
  have hsize : (fun v : Visit α => v.block.blockCount) = Block.size ∘ Visit.block :=
    funext fun v => Block.blockCount_eq_size v.block
  rw [outstanding, remaining, Block.sizeAll_eq_sum, pending, List.map_map, List.map_reverse,
    List.sum_reverse, hsize]

/-- The next block is a child of the one that was met, or was on the stack below it. -/
theorem Rising.depth_le {w w' w'' : Walk α} {v u : Visit α} (hw : w.Rising)
    (h : w.next? = some (v, w')) (h' : w'.next? = some (u, w'')) : u.depth ≤ v.depth + 1 := by
  obtain ⟨rest, before, after⟩ := pending_of_next? h
  obtain ⟨rest', before', -⟩ := pending_of_next? h'
  have hu : u ∈ v.below ++ rest := by
    rw [← after, before']
    exact List.mem_cons_self
  rcases List.mem_append.mp hu with hchild | hrest
  · obtain ⟨b, -, rfl⟩ := List.mem_map.mp hchild
    exact Nat.le_refl _
  · rw [Rising, before, List.pairwise_cons] at hw
    exact Nat.le_succ_of_le (hw.1 u hrest)

/-- The root alone is at depth 0, and it is met first. -/
theorem depth_eq_zero_iff {t : Block α} {k : ℕ} {v : Visit α} {w : Walk α}
    (h : ((start t).advance k).2.next? = some (v, w)) : v.depth = 0 ↔ k = 0 := by
  obtain ⟨w₁, hfirst⟩ : ∃ w₁, (start t).next? = some (⟨0, t⟩, w₁) := ⟨_, rfl⟩
  cases k with
  | zero =>
      obtain ⟨rfl, -⟩ := Prod.mk.inj (Option.some.inj (hfirst.symm.trans h))
      simp
  | succ k =>
      obtain ⟨p, roots, hp, -, hparts⟩ := (parts_start t).next hfirst
      obtain ⟨met, roots', -, hlater⟩ := hparts.advance k
      rw [Walk.advance, Traversal.advance_of_eq_some hfirst] at h
      obtain ⟨q, roots'', hq, hfresh, -⟩ := hlater.next h
      have hroot : p = [] := List.length_eq_zero_iff.mp hp.depth
      have hne : q ≠ [] := by
        rintro rfl
        simp [hroot] at hfresh
      rw [← hq.depth, List.length_eq_zero_iff]
      simp [hne]

/-- At any time in a walk the depths on the stack rise to the top, and the trees on the stack are
disjoint and contain exactly the blocks that are not met. Every step takes one block out of them, and
goes down by one level at most; only the first one meets a block at depth 0. -/
theorem stack_parts_unmet (t : Block α) (k : ℕ) :
    let w := ((start t).advance k).2
    w.stack.toList.Pairwise (·.depth ≤ ·.depth) ∧
      (∃ met roots, List.Forall₂ (Leads t) met ((start t).advance k).1.reduceOption ∧
        Parts t met roots w) ∧
      ∀ v w', w.next? = some (v, w') →
        w.outstanding = w'.outstanding + 1 ∧ (v.depth = 0 ↔ k = 0) ∧
          ∀ u w'', w'.next? = some (u, w'') → u.depth ≤ v.depth + 1 := by
  intro w
  have hrising : w.Rising := rising_advance t k
  obtain ⟨met, roots, hmet, hparts⟩ := (parts_start t).advance k
  refine ⟨List.pairwise_reverse.mp hrising, ⟨met, roots, hmet, hparts⟩, ?_⟩
  intro v w' h
  refine ⟨?_, depth_eq_zero_iff h, fun u w'' h' => hrising.depth_le h h'⟩
  rw [outstanding_eq_remaining, outstanding_eq_remaining, remaining_of_next? h]

/-- Two equal blocks at different depths are on the stack when the root and its first child are met. -/
theorem stack_parts_unmet_alike :
    let g : Block ℕ := ⟨some "g", [2], []⟩
    let c : Block ℕ := ⟨none, [1], [g]⟩
    let t : Block ℕ := ⟨some "f", [], [c, g]⟩
    let w : Walk ℕ := ⟨#[⟨1, g⟩, ⟨2, g⟩]⟩
    let w' : Walk ℕ := ⟨#[⟨1, g⟩]⟩
    (start t).advance 2 = ([some ⟨0, t⟩, some ⟨1, c⟩], w) ∧ w.next? = some (⟨2, g⟩, w') ∧
      w'.next? = some (⟨1, g⟩, ⟨#[]⟩) ∧ w.outstanding = w'.outstanding + 1 ∧
      (∃ met roots, List.Forall₂ (Leads t) met [⟨0, t⟩, ⟨1, c⟩] ∧ Parts t met roots w) := by
  intro g c t w w'
  have hadvance : (start t).advance 2 = ([some ⟨0, t⟩, some ⟨1, c⟩], w) := rfl
  have hnext : w.next? = some (⟨2, g⟩, w') := rfl
  obtain ⟨-, hparts, hstep⟩ := stack_parts_unmet t 2
  rw [hadvance] at hparts hstep
  exact ⟨hadvance, hnext, rfl, (hstep _ w' hnext).1, hparts⟩

end Walk

end BlockOutline
