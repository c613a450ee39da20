import Mathlib.Data.List.Chain
import BlockOutline.Proofs.Outline.Loading
import BlockOutline.Proofs.Toml.Nesting
import BlockOutline.Proofs.Walk.Metrics

/-! # How deep loaded trees are

A block is nested in another one by a header with one part more, or by two levels of a value. Both are
limited, and so is the height of every tree that is loaded. -/

namespace BlockOutline

open Toml (Node depthLimit)

/-! ## Nested calls -/

/-- Calls of a structural recursion on trees, each inside the one before: what is passed to a call is
a child of what was passed to the call around it. -/
def NestedCalls {β : Type} (children : β → List β) (calls : List β) : Prop :=
  calls.IsChain fun outer inner => inner ∈ children outer

theorem Block.length_le_levels {α : Type} {b : Block α} {bs : List (Block α)}
    (h : NestedCalls children (b :: bs)) : (b :: bs).length ≤ b.levels := by
  induction bs generalizing b with
  | nil =>
      rw [levels_eq]
      exact Nat.le_add_right _ _
  | cons c bs ih =>
      obtain ⟨hc, hrest⟩ := List.isChain_cons_cons.mp h
      have hle := Nat.le_trans (ih hrest) (levels_le_levelsAll hc)
      rw [levels_eq, List.length_cons]
      omega

theorem nestedCalls_build {nodes : List OutlineNode} (h : NestedCalls OutlineNode.children nodes) :
    NestedCalls Block.children (nodes.map OutlineNode.build) := by
  refine List.isChain_map_of_isChain OutlineNode.build ?_ h
  intro node child hchild
  rw [OutlineNode.build_eq node]
  exact List.mem_map_of_mem hchild

/-! ## Levels of values -/

/-- Bounds on the levels of what a value writes, as a block and as the children of one. -/
structure LevelsWithin (block children : ℕ) (node : Node) : Prop where
  block : ∀ b, WritesBlock node b → b.levels ≤ block
  children : ∀ bs, WritesArray WritesBlock node bs → Block.levelsAll bs ≤ children

namespace LevelsWithin

variable {m n : ℕ}

theorem mono {m' n' : ℕ} {node : Node} (h : LevelsWithin m n node) (hm : m ≤ m') (hn : n ≤ n') :
    LevelsWithin m' n' node :=
  ⟨fun b hb => Nat.le_trans (h.block b hb) hm, fun bs hbs => Nat.le_trans (h.children bs hbs) hn⟩

/-- A block has one level more than its children, which are written in one of its parts. -/
theorem levels_le {node : Node} {b : Block String} (hb : WritesBlock node b)
    (h : ∀ part ∈ node.parts, LevelsWithin m n part) : b.levels ≤ n + 1 := by
  obtain ⟨record, -, -, -, hchildren⟩ := hb
  rw [Block.levels_eq, Nat.add_comm]
  refine Nat.add_le_add_right ?_ 1
  generalize hfound : List.lookup "children" _ = written at hchildren
  cases hchildren with
  | absent => exact Nat.zero_le n
  | given hwritten =>
      have hpart := Record.mem_parts_of_mem_members record _ (Record.mem_of_lookup hfound)
      exact (h _ hpart).children _ hwritten

theorem scalar (span : Toml.Span) (value : Toml.Scalar) : LevelsWithin 0 0 (.scalar span value) where
  block := by
    intro b hb
    obtain ⟨record, -, -, -, -⟩ := hb
    cases record
  children := by
    intro bs hbs
    cases hbs

theorem array (span : Toml.Span) {items : List Node} (h : ∀ item ∈ items, LevelsWithin m n item) :
    LevelsWithin (n + 1) m (.array span items) where
  block := fun _ hb => levels_le hb h
  children := by
    intro bs hbs
    obtain ⟨_, hitems⟩ := hbs
    induction hitems with
    | nil => exact Nat.zero_le m
    | cons hb _ ih =>
        have hrest := ih fun item hi => h item (List.mem_cons_of_mem _ hi)
        exact Nat.max_le.mpr ⟨(h _ List.mem_cons_self).block _ hb, hrest⟩

theorem table (span : Toml.Span) {entries : List (Toml.Key × Node)}
    (h : ∀ entry ∈ entries, LevelsWithin m n entry.2) : LevelsWithin (n + 1) 0 (.table span entries) where
  block := fun _ hb => levels_le hb (List.forall_mem_map.mpr h)
  children := by
    intro bs hbs
    cases hbs

/-- Keys add a level for every part, to the levels of the values where they lead. -/
theorem of_keyed {Value : Node → Prop} (hvalue : ∀ node, Value node → LevelsWithin (n + 1) n node)
    {parts : ℕ} {node : Node} (h : node.Keyed Value parts) :
    LevelsWithin (parts - 1 + n + 1) (parts + n) node := by
  induction h with
  | value h => exact (hvalue _ h).mono (by omega) (by omega)
  | table span _ ih => exact (table span ih).mono (Nat.le_refl _) (Nat.zero_le _)
  | @tables parts hparts span items htables _ ih =>
      -- A table is no list of children, so an array of tables is a block with at most one level.
      have hitem : ∀ item ∈ items, LevelsWithin (parts - 1 + n + 1) 0 item := by
        intro item hi
        obtain ⟨_, _, rfl⟩ := htables item hi
        refine ⟨(ih _ hi).block, ?_⟩
        intro bs hbs
        cases hbs
      exact (array span hitem).mono (by omega) (by omega)

/-- In a value every block takes two levels, its own and that of the array of its children. -/
theorem of_written {limit : ℕ} {node : Node} (h : node.Written limit) :
    LevelsWithin ((limit + 1) / 2) (limit / 2) node := by
  induction limit generalizing node with
  | zero =>
      obtain ⟨span, value, rfl⟩ := h
      exact scalar span value
  | succ limit ih =>
      rcases h with ⟨span, value, rfl⟩ | ⟨span, items, rfl, hitems⟩ | ⟨span, entries, rfl, hentries⟩
      · exact (scalar span value).mono (Nat.zero_le _) (Nat.zero_le _)
      · exact (array span fun item hi => ih (hitems item hi)).mono (by omega) (Nat.le_refl _)
      · have hvalue (node : Node) (h : node.Written limit) :
            LevelsWithin (limit / 2 + 1) (limit / 2) node :=
          (ih h).mono (by omega) (Nat.le_refl _)
        have hentry := fun entry he => of_keyed hvalue (hentries entry he)
        exact (table span hentry).mono (by omega) (Nat.zero_le _)

end LevelsWithin

/-! ## Documents -/

namespace Outline

theorem levels_tree_le {source : String} {document : Node} (hparse : Toml.parse source = .ok document)
    {o : Outline} (h : WritesOutline document o) : o.tree.levels ≤ 118 := by
  obtain ⟨span, entries, rfl, hkeyed⟩ := Toml.keyed_parse hparse
  have hvalue (node : Node) (h : node.Written depthLimit) : LevelsWithin (39 + 1) 39 node :=
    LevelsWithin.of_written h
  cases h with
  | @intro _ root record _ _ found hroot _ =>
      cases record
      obtain ⟨entry, he, hmember⟩ := List.mem_map.mp (Record.mem_of_lookup found)
      have hentry : entry.2 = root := congrArg Prod.snd hmember
      exact (LevelsWithin.of_keyed hvalue (hkeyed entry he)).block o.tree (hentry ▸ hroot)

/-- No text, however long and in whatever notation, holds a tree with more than 118 levels. So no
recursion on the tree, or on the outline that it is built from, ever has more calls inside each
other. -/
theorem height_le_of_load {source : String} {file : ℕ} {o : Outline}
    (h : load source file = .ok o) :
    o.tree.height ≤ 118 ∧
      (∀ bs, NestedCalls Block.children (o.tree :: bs) → (o.tree :: bs).length ≤ 118) ∧
      ∀ nodes, NestedCalls OutlineNode.children (o.root :: nodes) →
        (o.root :: nodes).length ≤ 118 := by
  obtain ⟨document, hdocument, -⟩ := Fallible.bind_eq_ok_iff.mp h
  have hparse : Toml.parse source = .ok document := Fallible.mapError_eq_ok_iff.mp hdocument
  obtain ⟨-, -, -, hkeys⟩ := Toml.distinctKeys_parse hparse
  have hlevels := levels_tree_le hparse (writes_of_read hkeys ((load_eq_ok_iff hparse file o).mp h))
  refine ⟨?_, ?_, ?_⟩
  · rw [Block.height_eq_levels]
    exact hlevels
  · intro bs hbs
    exact Nat.le_trans (Block.length_le_levels hbs) hlevels
  · intro nodes hnodes
    have hbuild := Block.length_le_levels (nestedCalls_build hnodes)
    rw [← List.map_cons, List.length_map] at hbuild
    exact Nat.le_trans hbuild hlevels

/-- A header, an array of fields and an inline table, one inside the other. -/
theorem height_le_of_load_mixed :
    let source : String := "[[root.children]]\nchildren = [[\"g\", [], [\x7bstatements = []\x7d]]]"
    let inner : OutlineNode := ⟨none, [], []⟩
    let g : OutlineNode := ⟨some "g", [], [inner]⟩
    let f : OutlineNode := ⟨none, [], [g]⟩
    let o : Outline := ⟨none, ⟨none, [], [f]⟩, none⟩
    load source 0 = .ok o ∧
      o.tree.height ≤ 118 ∧
      NestedCalls Block.children [o.tree, f.build, g.build, inner.build] ∧
      NestedCalls OutlineNode.children [o.root, f, g, inner] ∧
      [o.tree, f.build, g.build, inner.build].length ≤ 118 ∧
      [o.root, f, g, inner].length ≤ 118 := by
  intro source inner g f o
  have hload : load source 0 = .ok o := by decide +kernel
  have hnodes : NestedCalls OutlineNode.children [o.root, f, g, inner] := by
    simp [NestedCalls, o, f, g]
  have hblocks := nestedCalls_build hnodes
  obtain ⟨hheight, htree, hroot⟩ := height_le_of_load hload
  exact ⟨hload, hheight, hblocks, hnodes, htree _ hblocks, hroot _ hnodes⟩

end Outline

end BlockOutline
