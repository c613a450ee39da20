import BlockOutline.Proofs.Block.Addresses
import BlockOutline.Proofs.Walk.Preorder

/-! # Rebuilding a tree from its walk

The entries of a walk are enough to build the tree again from the top: every block is put behind the
children of the block that was added last one level above it. -/

namespace BlockOutline

namespace Block

open Fallible

variable {α : Type}

/-! ## Changes below the last child -/

/-- A change below the last child leaves the children before it as they are. -/
theorem updateAt_last {change : Block α → Block α} {rest : List Step} {last changed : Block α}
    (h : last.updateAt change rest = .ok changed) (p : Option String) (ss : List α)
    (front : List (Block α)) :
    updateAt change (.last :: rest) ⟨p, ss, front ++ [last]⟩ = .ok ⟨p, ss, front ++ [changed]⟩ := by
  have hchild : child? ⟨p, ss, front ++ [last]⟩ .last = some last := by
    simp [child?, Step.position]
  simp [updateAt, hchild, h, Step.position]

/-! ## Building top-down -/

/-- A block without children. -/
def childless (prototype : Option String) (statements : List α) : Block α :=
  (leaf prototype).addStatements statements

/-- Adds a childless block for an entry of a walk. Its parent is found from the root by going to the
last child once for every level between them. -/
def graft (tree : Block α) (entry : ℕ × Option String × List α) : Except ℕ (Block α) :=
  tree.updateAt (·.addChild (childless entry.2.1 entry.2.2))
    (List.replicate (entry.1 - 1) .last)

/-- Builds a tree from its root and the entries of the blocks below, one after the other. -/
def rebuild (prototype : Option String) (statements : List α)
    (entries : List (ℕ × Option String × List α)) : Except ℕ (Block α) :=
  entries.foldlM graft (childless prototype statements)

/-! ## The entries of a walk -/

/-- The entries of neighbouring trees whose roots are met at a depth. -/
def entriesFrom (depth : ℕ) (bs : List (Block α)) : List (ℕ × Option String × List α) :=
  (bs.flatMap fun b => Visit.subtree ⟨depth, b⟩).map Visit.entry

@[simp] theorem entriesFrom_nil (depth : ℕ) : entriesFrom depth ([] : List (Block α)) = [] :=
  rfl

theorem entriesFrom_cons (depth : ℕ) (b : Block α) (bs : List (Block α)) :
    entriesFrom depth (b :: bs) = (depth, b.prototype, b.statements) ::
      (entriesFrom (depth + 1) b.children ++ entriesFrom depth bs) := by
  simp only [entriesFrom, List.flatMap_cons, Visit.subtree_eq ⟨depth, b⟩, Visit.below,
    List.flatMap_map, List.map_append, List.map_cons, List.cons_append]
  rfl

/-- The entry of a block met from one level further up. -/
def raise (entry : ℕ × Option String × List α) : ℕ × Option String × List α :=
  (entry.1 + 1, entry.2)

theorem entriesFrom_succ (depth : ℕ) (bs : List (Block α)) :
    entriesFrom (depth + 1) bs = (entriesFrom depth bs).map raise := by
  simp only [entriesFrom, List.map_map, List.map_flatMap, Visit.subtree]
  rfl

theorem depth_pos_of_mem_entriesFrom {depth : ℕ} {bs : List (Block α)}
    {entry : ℕ × Option String × List α} (h : entry ∈ entriesFrom (depth + 1) bs) :
    0 < entry.1 := by
  rw [entriesFrom_succ] at h
  obtain ⟨e, _, rfl⟩ := List.mem_map.mp h
  exact Nat.succ_pos e.1

theorem entries_eq_cons (t : Block α) :
    t.visits.map Visit.entry = (0, t.prototype, t.statements) :: entriesFrom 1 t.children := by
  rw [visits_eq_preorder, preorder_eq]
  rfl

theorem tail_entries (t : Block α) :
    t.visits.tail.map Visit.entry = entriesFrom 1 t.children := by
  rw [List.map_tail, entries_eq_cons, List.tail_cons]

/-! ## The round trip -/

theorem graft_raise {last grown : Block α} {entry : ℕ × Option String × List α}
    (hpos : 0 < entry.1) (h : last.graft entry = .ok grown) (p : Option String) (ss : List α)
    (front : List (Block α)) :
    graft ⟨p, ss, front ++ [last]⟩ (raise entry) = .ok ⟨p, ss, front ++ [grown]⟩ := by
  obtain ⟨depth, hdepth⟩ : ∃ depth, entry.1 = depth + 1 := ⟨entry.1 - 1, by omega⟩
  rw [graft, hdepth, Nat.add_sub_cancel] at h
  rw [graft, raise, hdepth, Nat.add_sub_cancel, List.replicate_succ]
  exact updateAt_last h p ss front

/-- Whatever is built from a childless block is built in the same way below a last child. -/
theorem foldlM_graft_raise {entries : List (ℕ × Option String × List α)} {last grown : Block α}
    (hpos : ∀ entry ∈ entries, 0 < entry.1) (h : entries.foldlM graft last = .ok grown)
    (p : Option String) (ss : List α) (front : List (Block α)) :
    (entries.map raise).foldlM graft ⟨p, ss, front ++ [last]⟩ = .ok ⟨p, ss, front ++ [grown]⟩ := by
  rw [List.foldlM_map]
  refine foldlM_simulates (fun last : Block α => (⟨p, ss, front ++ [last]⟩ : Block α)) ?_ h
  intro last grown entry he hgraft
  exact graft_raise (hpos entry he) hgraft p ss front

/-- The entries below a block put its children, complete, behind those that are there already. -/
theorem foldlM_graft_entriesFrom (b : Block α) (front : List (Block α)) :
    (entriesFrom 1 b.children).foldlM graft ⟨b.prototype, b.statements, front⟩ =
      .ok ⟨b.prototype, b.statements, front ++ b.children⟩ := by
  induction b generalizing front with
  | mk p ss children ih =>
      -- Each child is first added without anything below it, then filled while it is the last one.
      induction children generalizing front with
      | nil => simp [pure, Except.pure]
      | cons c cs ihs =>
          have hfirst : graft ⟨p, ss, front⟩ (1, c.prototype, c.statements) =
              .ok ⟨p, ss, front ++ [childless c.prototype c.statements]⟩ := rfl
          have hbelow : (entriesFrom 1 c.children).foldlM graft
              (childless c.prototype c.statements) = .ok c := by
            have h := ih c (by simp) []
            cases c
            simpa [childless, leaf, addStatements] using h
          have hraised := foldlM_graft_raise
            (fun entry he => depth_pos_of_mem_entriesFrom he) hbelow p ss front
          have hrest := ihs (fun c hc => ih c (by simp [hc])) (front ++ [c])
          rw [entriesFrom_cons, entriesFrom_succ, List.foldlM_cons, hfirst]
          change (List.map raise _ ++ _).foldlM graft _ = _
          rw [List.foldlM_append, hraised]
          simpa [bind, Except.bind] using hrest

theorem rebuild_entriesFrom (t : Block α) :
    rebuild t.prototype t.statements (entriesFrom 1 t.children) = .ok t := by
  have h := foldlM_graft_entriesFrom t []
  cases t
  simpa [rebuild, childless, leaf, addStatements] using h

/-- As long as all goes well there is a tree before every step, and the step succeeds. -/
theorem exists_graft_of_rebuild {p : Option String} {ss : List α}
    {entries : List (ℕ × Option String × List α)} {t : Block α}
    (h : rebuild p ss entries = .ok t) {k : ℕ} {entry : ℕ × Option String × List α}
    (hk : entries[k]? = some entry) :
    ∃ before after, rebuild p ss (entries.take k) = .ok before ∧ before.graft entry = .ok after := by
  obtain ⟨hlt, rfl⟩ := List.getElem?_eq_some_iff.mp hk
  rw [rebuild, ← List.take_append_drop k entries, List.foldlM_append,
    List.drop_eq_getElem_cons hlt] at h
  obtain ⟨before, hbefore, h⟩ := bind_eq_ok_iff.mp h
  rw [List.foldlM_cons] at h
  obtain ⟨after, hgraft, -⟩ := bind_eq_ok_iff.mp h
  exact ⟨before, after, hbefore, hgraft⟩

/-! ## Equality of trees -/

/-- A list of entries goes on above a depth if it does not begin at that depth or below. -/
def GoesOnAbove (depth : ℕ) (entries : List (ℕ × Option String × List α)) : Prop :=
  ∀ entry ∈ entries.head?, entry.1 < depth

theorem goesOnAbove_nil (depth : ℕ) :
    GoesOnAbove depth ([] : List (ℕ × Option String × List α)) := by
  simp [GoesOnAbove]

theorem goesOnAbove_append {depth : ℕ} {entries : List (ℕ × Option String × List α)}
    (h : GoesOnAbove depth entries) (bs : List (Block α)) :
    GoesOnAbove (depth + 1) (entriesFrom depth bs ++ entries) := by
  intro entry he
  cases bs with
  | nil =>
      have := h entry (by simpa [entriesFrom] using he)
      omega
  | cons b bs =>
      rw [entriesFrom_cons] at he
      cases he
      exact Nat.lt_succ_self depth

theorem entry_beq [BEq α] (e f : ℕ × Option String × List α) :
    (e == f) = (e.1 == f.1 && (e.2.1 == f.2.1 && e.2.2 == f.2.2)) :=
  rfl

theorem beq_eq_fields [BEq α] (b c : Block α) :
    (b == c) = (b.prototype == c.prototype && b.statements == c.statements &&
      b.children == c.children) := by
  cases b
  cases c
  exact mk_beq_mk _ _ _ _ _ _

theorem goesOnAbove_beq_cons [BEq α] {depth : ℕ} {xs : List (ℕ × Option String × List α)}
    (h : GoesOnAbove depth xs) (entry : Option String × List α)
    (ys : List (ℕ × Option String × List α)) :
    (xs == (depth, entry) :: ys) = false ∧ ((depth, entry) :: ys == xs) = false := by
  cases xs with
  | nil => exact ⟨rfl, rfl⟩
  | cons x xs =>
      have hlt : x.1 < depth := h x rfl
      have hne : x.1 ≠ depth := Nat.ne_of_lt hlt
      rw [List.cons_beq_cons, List.cons_beq_cons, entry_beq, entry_beq]
      simp [hne, hne.symm]

/-- The entries of neighbouring trees can be told from what follows them by the depths alone, so
they are equal exactly if the trees are. -/
theorem entriesFrom_append_beq [BEq α] (b : Block α) (depth : ℕ) (ds : List (Block α))
    {xs ys : List (ℕ × Option String × List α)} (hx : GoesOnAbove depth xs)
    (hy : GoesOnAbove depth ys) :
    (entriesFrom depth b.children ++ xs == entriesFrom depth ds ++ ys) =
      (b.children == ds && xs == ys) := by
  induction b generalizing depth ds xs ys with
  | mk p ss children ih =>
      induction children generalizing ds with
      | nil =>
          cases ds with
          | nil => simp [entriesFrom]
          | cons d ds =>
              rw [entriesFrom_cons]
              exact (goesOnAbove_beq_cons hx _ _).1
      | cons c cs ihs =>
          cases ds with
          | nil =>
              rw [entriesFrom_cons]
              exact (goesOnAbove_beq_cons hy _ _).2
          | cons d ds =>
              have hbelow := ih c (by simp) (depth + 1) d.children (goesOnAbove_append hx cs)
                (goesOnAbove_append hy ds)
              have hbeside := ihs (fun c hc => ih c (by simp [hc])) ds
              simp only at hbeside
              simp only [entriesFrom_cons, List.cons_append, List.append_assoc, List.cons_beq_cons,
                hbelow, hbeside, entry_beq, beq_eq_fields c d, BEq.rfl, Bool.true_and,
                Bool.and_assoc]

/-- Two trees are equal by their fields exactly if the entries of their walks are. -/
theorem beq_eq_entries_beq [BEq α] (t u : Block α) :
    (t == u) = (t.visits.map Visit.entry == u.visits.map Visit.entry) := by
  have h := entriesFrom_append_beq t 1 u.children (goesOnAbove_nil 1) (goesOnAbove_nil 1)
  simp only [List.append_nil] at h
  rw [entries_eq_cons, entries_eq_cons, List.cons_beq_cons, h, entry_beq, beq_eq_fields]
  simp [Bool.and_assoc]

theorem eq_iff_entries_eq (t u : Block α) :
    t = u ↔ t.visits.map Visit.entry = u.visits.map Visit.entry := by
  constructor
  · intro h
    rw [h]
  · intro h
    rw [entries_eq_cons, entries_eq_cons, List.cons.injEq, Prod.mk.injEq, Prod.mk.injEq] at h
    obtain ⟨⟨-, hp, hs⟩, hrest⟩ := h
    have ht := rebuild_entriesFrom t
    rw [hp, hs, hrest, rebuild_entriesFrom u] at ht
    exact (Except.ok.inj ht).symm

/-- Replaying a walk builds the tree it went over, and every step of the replay finds the parent of
its block by going to last children. So the entries of a walk decide equality of trees. -/
theorem rebuild_walk (t : Block α) :
    rebuild t.prototype t.statements (t.visits.tail.map Visit.entry) = .ok t ∧
      (∀ k v, t.visits.tail[k]? = some v → 0 < v.depth ∧ ∃ before parent,
        rebuild t.prototype t.statements ((t.visits.tail.take k).map Visit.entry) = .ok before ∧
          before.locate (List.replicate (v.depth - 1) .last) = .ok parent) ∧
      (∀ u, t = u ↔ t.visits.map Visit.entry = u.visits.map Visit.entry) ∧
      ∀ [BEq α] (u : Block α),
        (t == u) = (t.visits.map Visit.entry == u.visits.map Visit.entry) := by
  have hrebuilt : rebuild t.prototype t.statements (t.visits.tail.map Visit.entry) = .ok t := by
    rw [tail_entries, rebuild_entriesFrom]
  refine ⟨hrebuilt, ?_, eq_iff_entries_eq t, fun u => beq_eq_entries_beq t u⟩
  intro k v hv
  have hentry : (t.visits.tail.map Visit.entry)[k]? = some v.entry := by
    rw [List.getElem?_map, hv, Option.map_some]
  have hmem : v.entry ∈ entriesFrom 1 t.children := by
    rw [← tail_entries]
    exact List.mem_of_getElem? hentry
  obtain ⟨before, after, hbefore, hgraft⟩ := exists_graft_of_rebuild hrebuilt hentry
  obtain ⟨parent, hparent⟩ := (updateAt_isOk_iff _ _ before).mp ⟨after, hgraft⟩
  refine ⟨depth_pos_of_mem_entriesFrom hmem, before, parent, ?_, hparent⟩
  rw [List.map_take]
  exact hbefore

/-- The grandchild of a tree is put below the child that was added just before it. -/
theorem rebuild_walk_grandchild :
    let t : Block ℕ := ⟨some "f", [1], [⟨none, [], [⟨some "g", [2], []⟩]⟩, ⟨none, [3, 4], []⟩]⟩
    t.visits.tail[1]? = some ⟨2, ⟨some "g", [2], []⟩⟩ ∧ ∃ before parent,
      rebuild (some "f") [1] ((t.visits.tail.take 1).map Visit.entry) = .ok before ∧
        before.locate [.last] = .ok parent := by
  intro t
  have hv : t.visits.tail[1]? = some ⟨2, ⟨some "g", [2], []⟩⟩ := by decide +kernel
  exact ⟨hv, ((rebuild_walk t).2.1 1 _ hv).2⟩

end Block

end BlockOutline
