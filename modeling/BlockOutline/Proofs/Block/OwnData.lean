import BlockOutline.Proofs.Block.Subtrees

/-! # Own data

A change of what a block has of its own, its prototype and its statements, shows in one entry of the
walk over the tree around it and nowhere else. -/

namespace BlockOutline.Block

open Fallible

variable {α : Type}

/-! ## The walk around a block -/

/-- A block with other data of its own and the same children. -/
def withOwn (b : Block α) (p : Option String) (ss : List α) : Block α :=
  ⟨p, ss, b.children⟩

/-- A walk meets a block, then what is nested in it; what it meets before and after that stays as it
is when the block gets other data of its own. -/
theorem exists_walk_withOwn {t t' b : Block α} {f : Block α → Block α} {address : List Step}
    (hb : t.locate address = .ok b) (h : t.updateAt f address = .ok t') {p : Option String}
    {ss : List α} (hf : f b = b.withOwn p ss) :
    ∃ before after : List (Visit α), before.length = t.rank address ∧
      t.visits = before ++ (⟨address.length, b⟩ ::
        (preorderBelow b.children).map (Visit.deepen address.length)) ++ after ∧
      t'.visits.map Visit.entry = before.map Visit.entry ++ ((address.length, p, ss) ::
        ((preorderBelow b.children).map (Visit.deepen address.length)).map Visit.entry) ++
          after.map Visit.entry := by
  obtain ⟨before, after, hrank, hvisits, hentries⟩ := exists_frame hb h
  refine ⟨before, after, hrank, ?_, ?_⟩
  · rw [hvisits, visits_eq_cons b, List.map_cons, Visit.deepen, Nat.zero_add]
  · rw [hentries, hf, withOwn, visits_mk, List.map_cons, List.map_cons]
    simp [Visit.deepen, Visit.entry]

/-! ## One entry -/

/-- To put an entry in the place of another one changes the list there and nowhere else, and only if
the two are not equal. -/
theorem getElem?_set_ne_iff {β : Type} {l : List β} {k : ℕ} {old : β} (h : l[k]? = some old)
    (new : β) (i : ℕ) : (l.set k new)[i]? ≠ l[i]? ↔ i = k ∧ new ≠ old := by
  obtain ⟨hlt, -⟩ := List.getElem?_eq_some_iff.mp h
  by_cases hik : k = i
  · subst hik
    rw [List.getElem?_set_self hlt, h]
    simp
  · rw [List.getElem?_set_ne hik]
    simp [Ne.symm hik]

theorem set_eq_self {β : Type} {l : List β} {k : ℕ} {old : β} (h : l[k]? = some old) :
    l.set k old = l := by
  obtain ⟨hlt, hget⟩ := List.getElem?_eq_some_iff.mp h
  rw [← hget, List.set_getElem_self]

theorem height_eq_max?_entries (t : Block α) :
    t.height = (((t.visits.map Visit.entry).map (·.1 + 1)).max?).getD 1 := by
  rw [height, List.map_map]
  rfl

/-- As long as an entry keeps its depth, the tree keeps its height and its number of blocks, and the
prototypes change where the entry does. -/
theorem queries_of_set_entries {t t' : Block α} {k depth : ℕ} {p q : Option String} {ss ts : List α}
    (hentry : (t.visits.map Visit.entry)[k]? = some (depth, q, ts))
    (hset : t'.visits.map Visit.entry = (t.visits.map Visit.entry).set k (depth, p, ss)) :
    t'.height = t.height ∧ t'.blockCount = t.blockCount ∧
      t'.allPrototypes = t.allPrototypes.set k p := by
  refine ⟨?_, ?_, ?_⟩
  · have hdepth : ((t.visits.map Visit.entry).map (·.1 + 1))[k]? = some (depth + 1) := by
      rw [List.getElem?_map, hentry]
      rfl
    rw [height_eq_max?_entries, height_eq_max?_entries t, hset, List.map_set, set_eq_self hdepth]
  · have hlength := congrArg List.length hset
    rw [List.length_set, List.length_map, List.length_map, length_visits, length_visits] at hlength
    exact hlength
  · rw [allPrototypes_eq_map, allPrototypes_eq_map, hset, List.map_set]

/-! ## What changes and what stays -/

/-- A tree in which a block has got a prototype and more statements, against the tree before. In the
walk the entry of the block is replaced, and among all statements the new ones stand right behind
those that the block had, before those of the blocks nested in it. -/
structure ChangedAt (t b t' : Block α) (k depth : ℕ) (p : Option String) (added : List α) :
    Prop where
  place : t.visits[k]? = some ⟨depth, b⟩
  entries : t'.visits.map Visit.entry =
    (t.visits.map Visit.entry).set k (depth, p, b.statements ++ added)
  changed_iff : ∀ i, (t'.visits.map Visit.entry)[i]? ≠ (t.visits.map Visit.entry)[i]? ↔
    i = k ∧ (p ≠ b.prototype ∨ added ≠ [])
  height : t'.height = t.height
  blockCount : t'.blockCount = t.blockCount
  prototypes : t'.allPrototypes = t.allPrototypes.set k p
  renamed_iff : ∀ i, t'.allPrototypes[i]? ≠ t.allPrototypes[i]? ↔ i = k ∧ p ≠ b.prototype
  statements : ∃ later,
    t.allStatements = (t.visits.take k).flatMap (·.block.statements) ++ b.statements ++
      b.children.flatMap allStatements ++ later ∧
    t'.allStatements = (t.visits.take k).flatMap (·.block.statements) ++ b.statements ++ added ++
      b.children.flatMap allStatements ++ later

theorem flatMap_statements_preorderBelow (bs : List (Block α)) (levels : ℕ) :
    ((preorderBelow bs).map (Visit.deepen levels)).flatMap (·.block.statements) =
      bs.flatMap allStatements := by
  have h := allStatements_eq_append ⟨none, [], bs⟩
  rw [allStatements_eq_flatMap, visits_mk, List.flatMap_map, List.flatMap_cons] at h
  rw [List.flatMap_map]
  exact h

theorem changedAt {t t' b : Block α} {f : Block α → Block α} {address : List Step}
    (hb : t.locate address = .ok b) (h : t.updateAt f address = .ok t') {p : Option String}
    {added : List α} (hf : f b = b.withOwn p (b.statements ++ added)) :
    ChangedAt t b t' (t.rank address) address.length p added := by
  obtain ⟨before, after, hrank, hvisits, hentries⟩ := exists_walk_withOwn hb h hf
  have hplace := getElem?_rank hb
  have hentry : (t.visits.map Visit.entry)[t.rank address]? =
      some (address.length, b.prototype, b.statements) := by
    rw [List.getElem?_map, hplace]
    rfl
  have hset : t'.visits.map Visit.entry =
      (t.visits.map Visit.entry).set (t.rank address)
        (address.length, p, b.statements ++ added) := by
    rw [hentries, hvisits, ← hrank]
    simp [Visit.entry]
  obtain ⟨hheight, hcount, hprototypes⟩ := queries_of_set_entries hentry hset
  have hprototype : t.allPrototypes[t.rank address]? = some b.prototype := by
    rw [allPrototypes_eq_map, List.getElem?_map, hentry]
    rfl
  refine ⟨hplace, hset, ?_, hheight, hcount, hprototypes, ?_, ?_⟩
  · intro i
    rw [hset, getElem?_set_ne_iff hentry]
    simp [← not_and_or]
  · intro i
    rw [hprototypes, getElem?_set_ne_iff hprototype]
  · have htake : t.visits.take (t.rank address) = before := by
      rw [hvisits, ← hrank, List.append_assoc, List.take_left]
    refine ⟨after.flatMap (·.block.statements), ?_, ?_⟩
    · rw [allStatements_eq_flatMap, List.flatMap_map, htake, hvisits,
        ← flatMap_statements_preorderBelow b.children address.length]
      simp [Visit.entry]
    · rw [allStatements_eq_flatMap, hentries, htake,
        ← flatMap_statements_preorderBelow b.children address.length]
      simp [Visit.entry, List.flatMap_map]

/-- To add statements to a block, to give it a prototype or to take its prototype away changes one
entry of the walk, the one at the place of the block, and in it only the statements or only the
prototype. -/
theorem own_data_changes_one_entry {t b : Block α} {address : List Step}
    (h : t.locate address = .ok b) :
    (∀ s, ∃ t', t.updateAt (·.addStatement s) address = .ok t' ∧
        ChangedAt t b t' (t.rank address) address.length b.prototype [s]) ∧
      (∀ ss, ∃ t', t.updateAt (·.addStatements ss) address = .ok t' ∧
        ChangedAt t b t' (t.rank address) address.length b.prototype ss) ∧
      (∀ p, ∃ t', t.updateAt (·.setPrototype p) address = .ok t' ∧
        ChangedAt t b t' (t.rank address) address.length (some p) []) ∧
      ∃ t', t.updateAt (·.clearPrototype) address = .ok t' ∧
        ChangedAt t b t' (t.rank address) address.length none [] := by
  have hchange (f : Block α → Block α) (p : Option String) (added : List α)
      (hf : f b = b.withOwn p (b.statements ++ added)) : ∃ t', t.updateAt f address = .ok t' ∧
        ChangedAt t b t' (t.rank address) address.length p added := by
    obtain ⟨t', hupdate⟩ := (updateAt_isOk_iff f address t).mpr ⟨b, h⟩
    exact ⟨t', hupdate, changedAt h hupdate hf⟩
  refine ⟨fun s => hchange _ _ _ rfl, fun ss => hchange _ _ _ rfl, fun p => hchange _ _ _ ?_,
    hchange _ _ _ ?_⟩
  · rw [List.append_nil]
    rfl
  · rw [List.append_nil]
    rfl

/-- The block that is changed is equal to its sibling and has a child of its own. -/
theorem own_data_changes_one_entry_alike :
    let b : Block ℕ := ⟨some "g", [2], [⟨none, [3], []⟩]⟩
    let t : Block ℕ := ⟨some "f", [1], [b, b]⟩
    t.locate [.last] = .ok b ∧
      (∃ t', t.updateAt (·.addStatements [4, 5]) [.last] = .ok t' ∧
        ChangedAt t b t' 3 1 (some "g") [4, 5] ∧ t'.allStatements = [1, 2, 3, 2, 4, 5, 3]) ∧
      ∃ t', t.updateAt (·.clearPrototype) [.last] = .ok t' ∧ ChangedAt t b t' 3 1 none [] ∧
        t'.allPrototypes = [some "f", some "g", none, none, none] := by
  intro b t
  have hlocate : t.locate [.last] = .ok b := rfl
  obtain ⟨-, addStatements, -, t', hclear, hcleared⟩ := own_data_changes_one_entry hlocate
  obtain ⟨u, hadd, hadded⟩ := addStatements [4, 5]
  refine ⟨hlocate, ⟨u, hadd, hadded, ?_⟩, t', hclear, hcleared, ?_⟩
  · cases hadd
    decide +kernel
  · cases hclear
    decide +kernel

end BlockOutline.Block
