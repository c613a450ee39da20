import Mathlib.Data.Nat.Basic
import Mathlib.Order.Basic
import BlockOutline.Proofs.Walk.Queries
import BlockOutline.Proofs.Walk.Rebuilding

/-! # Splicing

A block that is changed somewhere in a tree changes the walk over the tree in one place only. What is
added as its last child is met right after everything that was nested in it before. -/

namespace BlockOutline

open Fallible

variable {α : Type}

namespace Block

/-! ## Queries and entries -/

theorem length_visits (t : Block α) : t.visits.length = t.blockCount := by
  rw [visits_eq_preorder, length_preorder, blockCount_eq_size]

theorem allPrototypes_eq_map (t : Block α) :
    t.allPrototypes = (t.visits.map Visit.entry).map (·.2.1) := by
  rw [allPrototypes_eq_map_visits, List.map_map]
  rfl

theorem allStatements_eq_flatMap (t : Block α) :
    t.allStatements = (t.visits.map Visit.entry).flatMap (·.2.2) := by
  rw [allStatements_eq_flatMap_visits, List.flatMap_map]
  rfl

/-- The height depends on nothing but the depths that the entries of a walk show. -/
theorem height_add_le_iff_entries (t : Block α) (m n : ℕ) :
    t.height + m ≤ n ↔ ∀ e ∈ t.visits.map Visit.entry, e.1 + m < n := by
  rw [height_add_le_iff, List.forall_mem_map]
  rfl

theorem map_raise_entry (vs : List (Visit α)) :
    (vs.map Visit.entry).map raise = (vs.map (Visit.deepen 1)).map Visit.entry := by
  rw [List.map_map, List.map_map]
  rfl

/-! ## Children between their siblings -/

theorem preorderBelow_append (before after : List (Block α)) :
    preorderBelow (before ++ after) = preorderBelow before ++ preorderBelow after := by
  simp [preorderBelow_eq_flatMap]

theorem length_preorderBelow (bs : List (Block α)) : (preorderBelow bs).length = sizeAll bs := by
  have h := length_preorder ⟨none, [], bs⟩
  rw [preorder, size, List.length_cons] at h
  omega

theorem visits_mk (p : Option String) (ss : List α) (children : List (Block α)) :
    visits ⟨p, ss, children⟩ = ⟨0, ⟨p, ss, children⟩⟩ :: preorderBelow children := by
  rw [visits_eq_preorder, preorder]

theorem visits_siblings (p : Option String) (ss : List α) (before : List (Block α)) (c : Block α)
    (after : List (Block α)) :
    visits ⟨p, ss, before ++ c :: after⟩ = ⟨0, ⟨p, ss, before ++ c :: after⟩⟩ ::
      (preorderBelow before ++ c.visits.map (Visit.deepen 1) ++ preorderBelow after) := by
  rw [visits_mk, preorderBelow_append, preorderBelow, visits_eq_preorder, List.append_assoc]

/-- A child that is added comes last in the walk over its parent. -/
theorem entries_addChild (b c : Block α) (levels : ℕ) :
    ((b.addChild c).visits.map (Visit.deepen levels)).map Visit.entry =
      (b.visits.map (Visit.deepen levels)).map Visit.entry ++
        (c.visits.map (Visit.deepen (levels + 1))).map Visit.entry := by
  obtain ⟨p, ss, children⟩ := b
  have hdeepen : (c.visits.map (Visit.deepen 1)).map (Visit.deepen levels) =
      c.visits.map (Visit.deepen (levels + 1)) := by
    simp [Visit.deepen_deepen, Nat.add_comm]
  rw [addChild, visits_siblings, visits_mk, preorderBelow, List.append_nil, List.map_cons,
    List.map_append, hdeepen, List.map_cons, List.map_append, List.map_cons, List.map_cons]
  rfl

/-! ## The place of a block in the walk -/

/-- The number of blocks that a walk meets before the block at an address. -/
def rank : List Step → Block α → ℕ
  | [], _ => 0
  | step :: rest, t =>
    match t.child? step with
    | none => 0
    | some c => 1 + sizeAll (t.children.take (step.position t.children.length)) + rank rest c

theorem rank_siblings {p : Option String} {ss : List α} {before after : List (Block α)}
    {c : Block α} {step : Step} (hstep : before.length = step.position (before ++ c :: after).length)
    (rest : List Step) :
    rank (step :: rest) ⟨p, ss, before ++ c :: after⟩ = 1 + sizeAll before + c.rank rest := by
  have hchild : child? ⟨p, ss, before ++ c :: after⟩ step = some c := by
    rw [child?, ← hstep, List.getElem?_append_right (Nat.le_refl _), Nat.sub_self]
    rfl
  rw [rank, hchild, ← hstep, List.take_left]

/-- What is nested in the block at an address stands in the walk as one piece, and a change there
leaves what is met before it and after it. -/
theorem exists_frame {t t' b : Block α} {f : Block α → Block α} {address : List Step}
    (hb : t.locate address = .ok b) (h : t.updateAt f address = .ok t') :
    ∃ before after, before.length = t.rank address ∧
      t.visits = before ++ b.visits.map (Visit.deepen address.length) ++ after ∧
      t'.visits.map Visit.entry = before.map Visit.entry ++
        ((f b).visits.map (Visit.deepen address.length)).map Visit.entry ++
          after.map Visit.entry := by
  induction address generalizing t t' with
  | nil =>
      cases hb
      cases h
      refine ⟨[], [], rfl, ?_, ?_⟩
      · simp [Visit.deepen_zero]
      · simp [Visit.deepen_zero]
  | cons step rest ih =>
      obtain ⟨p, ss, children⟩ := t
      obtain ⟨front, c, c', back, hstep, rfl, hlocate, hupdate, rfl⟩ := exists_siblings hb h
      obtain ⟨before, after, hlength, hvisits, hentries⟩ := ih hlocate hupdate
      -- Around the child there are its parent, the siblings before it and the siblings after it.
      refine ⟨⟨0, ⟨p, ss, front ++ c :: back⟩⟩ :: (preorderBelow front ++ before.map (.deepen 1)),
        after.map (.deepen 1) ++ preorderBelow back, ?_, ?_, ?_⟩
      · rw [rank_siblings hstep, List.length_cons, List.length_append, length_preorderBelow,
          List.length_map, hlength]
        omega
      · rw [visits_siblings, hvisits]
        simp [Visit.deepen_deepen, Function.comp_def]
      · rw [visits_siblings, List.map_cons, List.map_append, List.map_append, ← map_raise_entry,
          hentries, List.map_append, List.map_append, map_raise_entry, map_raise_entry,
          map_raise_entry]
        simp [Visit.deepen_deepen, Function.comp_def]
        rfl

/-! ## Adding a child -/

/-- A tree with another tree in its walk: the blocks of the other one, met from some levels further
up, stand between the first `k` blocks and the others. -/
structure Spliced (t c t' : Block α) (k levels : ℕ) : Prop where
  entries : t'.visits.map Visit.entry = (t.visits.take k).map Visit.entry ++
    (c.visits.map (Visit.deepen levels)).map Visit.entry ++ (t.visits.drop k).map Visit.entry
  blockCount : t'.blockCount = t.blockCount + c.blockCount
  height : t'.height = max t.height (levels + c.height)
  prototypes : t'.allPrototypes = t.allPrototypes.take k ++ c.allPrototypes ++ t.allPrototypes.drop k
  statements : t'.allStatements = (t.visits.take k).flatMap (·.block.statements) ++
    c.allStatements ++ (t.visits.drop k).flatMap (·.block.statements)

/-- The walk decides what the queries answer. -/
theorem spliced_of_entries {t c t' : Block α} {k levels : ℕ}
    (h : t'.visits.map Visit.entry = (t.visits.take k).map Visit.entry ++
      (c.visits.map (Visit.deepen levels)).map Visit.entry ++ (t.visits.drop k).map Visit.entry) :
    Spliced t c t' k levels where
  entries := h
  blockCount := by
    have hlength := congrArg List.length h
    have hsplit := congrArg List.length (List.take_append_drop k t.visits)
    simp only [List.length_append, List.length_map] at hlength hsplit
    rw [← length_visits, ← length_visits, ← length_visits]
    omega
  height := by
    -- Two numbers are the same if they have the same upper bounds.
    refine eq_of_forall_ge_iff fun n => ?_
    have hold := height_add_le_iff t 0 n
    have hnew := height_add_le_iff_entries t' 0 n
    have hchild := height_add_le_iff c levels n
    rw [← List.take_append_drop k t.visits, List.forall_mem_append] at hold
    rw [h, List.forall_mem_append, List.forall_mem_append] at hnew
    simp only [List.forall_mem_map, Nat.add_zero] at hold hnew
    rw [hnew, Nat.max_le, hold, Nat.add_comm levels, hchild, and_right_comm]
    rfl
  prototypes := by
    simp only [allPrototypes_eq_map, h, List.map_append, List.map_take, List.map_drop, List.map_map]
    rfl
  statements := by
    rw [allStatements_eq_flatMap t', allStatements_eq_flatMap c, h]
    simp only [List.flatMap_append, List.flatMap_map]
    rfl

/-- A tree that is added to a block becomes one piece of the walk, right behind the piece that the
block and all that was nested in it are. -/
theorem addChild_splices {t b : Block α} {address : List Step} (h : t.locate address = .ok b)
    (c : Block α) :
    (t.visits.drop (t.rank address)).take b.blockCount =
        b.visits.map (Visit.deepen address.length) ∧
      ∃ t', t.updateAt (·.addChild c) address = .ok t' ∧
        Spliced t c t' (t.rank address + b.blockCount) (address.length + 1) := by
  obtain ⟨t', hupdate⟩ := (updateAt_isOk_iff (·.addChild c) address t).mpr ⟨b, h⟩
  obtain ⟨before, after, hrank, hvisits, hentries⟩ := exists_frame h hupdate
  have hcount : (b.visits.map (Visit.deepen address.length)).length = b.blockCount := by
    rw [List.length_map, length_visits]
  have hk : (before ++ b.visits.map (Visit.deepen address.length)).length =
      t.rank address + b.blockCount := by
    rw [List.length_append, hrank, hcount]
  refine ⟨?_, t', hupdate, spliced_of_entries ?_⟩
  · rw [hvisits, ← hrank, ← hcount, List.append_assoc, List.drop_left, List.take_left]
  · rw [hvisits, ← hk, List.take_left, List.drop_left, hentries, entries_addChild, List.map_append]
    simp only [List.append_assoc]

/-- The block that gets a child has one already, and a sibling of its parent is met after it. -/
theorem addChild_splices_between :
    let b : Block ℕ := ⟨some "g", [3], [leaf none]⟩
    let t : Block ℕ := ⟨some "f", [1], [⟨none, [2], [leaf none, b]⟩, leaf (some "h")]⟩
    let c : Block ℕ := ⟨none, [4], [leaf none]⟩
    t.locate [.index 0, .last] = .ok b ∧ t.rank [.index 0, .last] = 3 ∧
      (t.visits.drop 3).take 2 = b.visits.map (Visit.deepen 2) ∧
      ∃ t', t.updateAt (·.addChild c) [.index 0, .last] = .ok t' ∧ Spliced t c t' 5 3 ∧
        t'.height = 5 := by
  intro b t c
  have hlocate : t.locate [.index 0, .last] = .ok b := rfl
  have hrank : t.rank [.index 0, .last] = 3 := rfl
  have hcount : b.blockCount = 2 := by decide +kernel
  obtain ⟨hpiece, t', hupdate, hspliced⟩ := addChild_splices hlocate c
  rw [hrank, hcount] at hpiece hspliced
  refine ⟨hlocate, hrank, hpiece, t', hupdate, hspliced, ?_⟩
  rw [hspliced.height]
  decide +kernel

end Block

end BlockOutline
