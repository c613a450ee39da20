import BlockOutline.Proofs.Block.Splicing
import BlockOutline.Proofs.Text.SelfDelimiting

/-! # Listings of trees

The lines that list a tree begin with blanks for the depth, and the names in them may be any text.
Still, with the names at hand, the depths and the numbers of statements can be read back. -/

namespace BlockOutline

variable {α β : Type}

/-! ## Lines -/

namespace TreeEntry

def name (e : TreeEntry) : String :=
  Block.displayName e.prototype

/-- What a line tells beside the name. -/
def measures (e : TreeEntry) : ℕ × ℕ :=
  (e.depth, e.statementCount)

/-- The blanks before a name cannot be mistaken for a part of it: behind every name there is
something else than blanks. -/
theorem depth_eq_of_line_append {e f : TreeEntry} (hname : e.name = f.name) {x y : String}
    (h : e.line ++ x = f.line ++ y) : e.depth = f.depth := by
  have hblanks (g : TreeEntry) (z : String) :
      ((g.line ++ z).toList.takeWhile (· = ' ')).length =
        2 * g.depth + ((g.name ++ " (").toList.takeWhile (· = ' ')).length := by
    have hopen : ∃ c ∈ (g.name ++ " (").toList, c ≠ ' ' := ⟨'(', by simp, by decide⟩
    have htext : (g.line ++ z).toList = List.replicate (2 * g.depth) ' ' ++
        ((g.name ++ " (").toList ++
          (Block.counted g.statementCount "statement" "statements" ++ ")" ++ z).toList) := by
      simp [line, name]
    rw [htext, Text.length_takeWhile_blanks hopen]
  have hsame := congrArg (fun s => (s.toList.takeWhile (· = ' ')).length) h
  simp only [hblanks, hname] at hsame
  omega

theorem line_append_inj {e f : TreeEntry} (hname : e.name = f.name) {x y : String}
    (h : e.line ++ x = f.line ++ y) : e.measures = f.measures ∧ x = y := by
  have hdepth := depth_eq_of_line_append hname h
  rw [name, name] at hname
  simp only [line, hdepth, hname, String.append_assoc, String.append_right_inj] at h
  obtain ⟨hcount, hrest⟩ := (Text.selfDelimiting_counted _ _ _).split h
  exact ⟨Prod.ext hdepth hcount, (String.append_right_inj _).mp hrest⟩

theorem line_eq_of_measures {e f : TreeEntry} (hname : e.name = f.name)
    (h : e.measures = f.measures) : e.line = f.line := by
  obtain ⟨hdepth, hcount⟩ := Prod.ext_iff.mp h
  rw [line, line, ← name, ← name, hname, show e.depth = f.depth from hdepth,
    show e.statementCount = f.statementCount from hcount]

end TreeEntry

theorem listed_cons (line : String) (lines : List String) :
    listed (line :: lines) = line ++ ("\n" ++ listed lines) := by
  simp [listed, String.append_assoc]

/-- The lines are read back one after the other, each up to its end. -/
theorem listed_eq_iff {es fs : List TreeEntry} (h : es.map TreeEntry.name = fs.map TreeEntry.name) :
    listed (es.map TreeEntry.line) = listed (fs.map TreeEntry.line) ↔
      es.map TreeEntry.measures = fs.map TreeEntry.measures := by
  induction es generalizing fs with
  | nil =>
      obtain rfl : fs = [] := by simpa using h.symm
      simp
  | cons e es ih =>
      cases fs with
      | nil => simp at h
      | cons f fs =>
          obtain ⟨hname, hnames⟩ := List.cons.inj h
          rw [List.map_cons, List.map_cons, listed_cons, listed_cons, List.map_cons, List.map_cons,
            List.cons.injEq, ← ih hnames]
          constructor
          · intro heq
            obtain ⟨hmeasures, hrest⟩ := TreeEntry.line_append_inj hname heq
            exact ⟨hmeasures, (String.append_right_inj _).mp hrest⟩
          · intro heq
            rw [TreeEntry.line_eq_of_measures hname heq.1, heq.2]

/-! ## Shapes -/

/-- Depth and number of statements of a visited block. -/
def Visit.measures (v : Visit α) : ℕ × ℕ :=
  (v.depth, v.block.statementCount)

namespace Block

mutual

/-- A tree without its texts: what is left is how many statements each block has, and how the blocks
are nested. -/
def shape : Block α → Block Unit
  | ⟨_, statements, children⟩ => ⟨none, List.replicate statements.length (), shapeAll children⟩

def shapeAll : List (Block α) → List (Block Unit)
  | [] => []
  | b :: rest => shape b :: shapeAll rest

end

theorem shapeAll_eq_map (bs : List (Block α)) : shapeAll bs = bs.map shape := by
  induction bs with
  | nil => rfl
  | cons b bs ih => rw [shapeAll, ih, List.map_cons]

theorem shape_eq (t : Block α) :
    t.shape = ⟨none, List.replicate t.statementCount (), t.children.map shape⟩ := by
  cases t
  rw [shape, shapeAll_eq_map]
  rfl

/-- The entry that a walk over a shape has for a block with these measures. -/
def shapeEntry (m : ℕ × ℕ) : ℕ × Option String × List Unit :=
  (m.1, none, List.replicate m.2 ())

theorem shapeEntry_injective : Function.Injective shapeEntry := by
  intro m n h
  simp only [shapeEntry, Prod.mk.injEq, List.replicate_inj] at h
  exact Prod.ext h.1 h.2.2.1

theorem entries_shape (t : Block α) :
    t.shape.visits.map Visit.entry = (t.visits.map Visit.measures).map shapeEntry := by
  induction t with
  | mk p ss children ih =>
      rw [visits_eq_preorder, visits_eq_preorder, preorder_eq, preorder_eq, shape_eq]
      simp only [List.map_cons, List.map_flatMap, List.flatMap_map]
      refine congrArg₂ List.cons rfl (List.flatMap_congr ?_)
      intro c hc
      have hchild := congrArg (List.map raise) (ih c hc)
      rw [visits_eq_preorder, visits_eq_preorder, map_raise_entry] at hchild
      rw [hchild]
      simp only [List.map_map]
      rfl

theorem shape_eq_iff (t : Block α) (u : Block β) :
    t.shape = u.shape ↔ t.visits.map Visit.measures = u.visits.map Visit.measures := by
  rw [eq_iff_entries_eq, entries_shape, entries_shape,
    (List.map_injective_iff.mpr shapeEntry_injective).eq_iff]

theorem map_name_treeEntries (t : Block α) :
    t.treeEntries.map TreeEntry.name = t.allPrototypes.map displayName := by
  rw [treeEntries, allPrototypes_eq_map_visits, List.map_map, List.map_map]
  rfl

theorem map_measures_treeEntries (t : Block α) :
    t.treeEntries.map TreeEntry.measures = t.visits.map Visit.measures := by
  rw [treeEntries, List.map_map]
  rfl

/-- Trees with the same displayed prototypes, whatever texts these are, are listed alike exactly if
their walks have the same depths and the same numbers of statements, that is if they have the same
shape. -/
theorem treeListing_eq_iff {t : Block α} {u : Block β}
    (h : t.allPrototypes.map displayName = u.allPrototypes.map displayName) :
    (t.treeListing = u.treeListing ↔
        t.visits.map (fun v => (v.depth, v.block.statementCount)) =
          u.visits.map (fun v => (v.depth, v.block.statementCount))) ∧
      (t.treeListing = u.treeListing ↔ t.shape = u.shape) := by
  have hlisted : t.treeListing = u.treeListing ↔
      t.visits.map Visit.measures = u.visits.map Visit.measures := by
    rw [treeListing_eq, treeListing_eq, ← map_measures_treeEntries, ← map_measures_treeEntries]
    refine listed_eq_iff ?_
    rw [map_name_treeEntries, map_name_treeEntries, h]
  exact ⟨hlisted, hlisted.trans (shape_eq_iff t u).symm⟩

/-- Names of blanks alone and with line breaks, one tree nested deeper than the other. -/
theorem treeListing_eq_iff_blank :
    let deep : Block ℕ := ⟨none, [], [⟨some "  ", [1], [⟨some "x (2 statements)\n", [], []⟩]⟩]⟩
    let flat : Block ℕ :=
      ⟨some "<anonymous>", [], [⟨some "  ", [1], []⟩, ⟨some "x (2 statements)\n", [], []⟩]⟩
    deep.allPrototypes.map displayName = flat.allPrototypes.map displayName ∧
      deep.shape ≠ flat.shape ∧ deep.treeListing ≠ flat.treeListing := by
  intro deep flat
  have hnames : deep.allPrototypes.map displayName = flat.allPrototypes.map displayName := by
    decide +kernel
  have hshape : deep.shape ≠ flat.shape := by decide +kernel
  exact ⟨hnames, hshape, fun h => hshape ((treeListing_eq_iff hnames).2.mp h)⟩

end Block

end BlockOutline
