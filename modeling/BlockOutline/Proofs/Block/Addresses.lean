import BlockOutline.Block.Address
import BlockOutline.Proofs.Fallible

/-! # Addresses

Where an address leads, and what a change at an address leaves in place. Every block that an address
leads to can be reached by child indices alone. -/

namespace BlockOutline.Block

open Fallible

variable {α : Type}

/-! ## One step at a time -/

theorem locate_cons_eq_ok_iff {b d : Block α} {step : Step} {rest : List Step} :
    b.locate (step :: rest) = .ok d ↔ ∃ c, b.child? step = some c ∧ c.locate rest = .ok d := by
  rw [locate]
  cases b.child? step with
  | none => simp
  | some c => simp

/-- A block with another child in the place of one of its children. -/
def replaceChild (b : Block α) (i : ℕ) (c : Block α) : Block α :=
  { b with children := b.children.set i c }

theorem updateAt_cons_eq_ok_iff {f : Block α → Block α} {b b' : Block α} {step : Step}
    {rest : List Step} :
    b.updateAt f (step :: rest) = .ok b' ↔ ∃ c c', b.child? step = some c ∧
      c.updateAt f rest = .ok c' ∧ b' = b.replaceChild (step.position b.children.length) c' := by
  rw [updateAt]
  cases b.child? step with
  | none => simp
  | some c =>
      cases hc : c.updateAt f rest with
      | error position => simp [hc]
      | ok c' => simp [hc, replaceChild, eq_comm]

/-- An address can be changed exactly if it leads to a block. -/
theorem updateAt_isOk_iff (change : Block α → Block α) (address : List Step) (b : Block α) :
    (∃ changed, b.updateAt change address = .ok changed) ↔ ∃ c, b.locate address = .ok c := by
  induction address generalizing b with
  | nil => simp [updateAt, locate]
  | cons step rest ih =>
      rw [updateAt, locate]
      cases b.child? step with
      | none => simp
      | some child =>
          have h := ih child
          cases hu : updateAt change rest child <;> cases hl : locate rest child <;>
            simp_all [Except.mapError]

/-- A child stands between its siblings, and a change in it leaves them as they are. -/
theorem exists_siblings {p : Option String} {ss : List α} {children : List (Block α)}
    {f : Block α → Block α} {t' b : Block α} {step : Step} {rest : List Step}
    (hb : locate (step :: rest) ⟨p, ss, children⟩ = .ok b)
    (h : updateAt f (step :: rest) ⟨p, ss, children⟩ = .ok t') :
    ∃ before c c' after, before.length = step.position children.length ∧
      children = before ++ c :: after ∧ c.locate rest = .ok b ∧ c.updateAt f rest = .ok c' ∧
        t' = ⟨p, ss, before ++ c' :: after⟩ := by
  obtain ⟨c, hchild, hlocate⟩ := locate_cons_eq_ok_iff.mp hb
  obtain ⟨d, c', hchild', hupdate, rfl⟩ := updateAt_cons_eq_ok_iff.mp h
  obtain rfl : c = d := Option.some.inj (hchild.symm.trans hchild')
  obtain ⟨hlt, hget⟩ := List.getElem?_eq_some_iff.mp hchild
  refine ⟨children.take (step.position children.length), c, c',
    children.drop (step.position children.length + 1), ?_, ?_, hlocate, hupdate, ?_⟩
  · rw [List.length_take, Nat.min_eq_left (Nat.le_of_lt hlt)]
  · rw [← hget, ← List.drop_eq_getElem_cons hlt, List.take_append_drop]
  · rw [replaceChild, List.set_eq_take_append_cons_drop, if_pos hlt]

/-! ## Child indices -/

/-- The address that child indices make. -/
def indices (path : List ℕ) : List Step :=
  path.map .index

@[simp] theorem indices_nil : indices [] = [] :=
  rfl

theorem locate_indices_cons_iff {b d : Block α} {i : ℕ} {path : List ℕ} :
    b.locate (indices (i :: path)) = .ok d ↔
      ∃ c, b.children[i]? = some c ∧ c.locate (indices path) = .ok d :=
  locate_cons_eq_ok_iff

theorem updateAt_indices_cons_iff {f : Block α → Block α} {b b' : Block α} {i : ℕ}
    {path : List ℕ} :
    b.updateAt f (indices (i :: path)) = .ok b' ↔ ∃ c c', b.children[i]? = some c ∧
      c.updateAt f (indices path) = .ok c' ∧ b' = b.replaceChild i c' :=
  updateAt_cons_eq_ok_iff

theorem locate_indices_append_iff {b d : Block α} {path path' : List ℕ} :
    b.locate (indices (path ++ path')) = .ok d ↔
      ∃ c, b.locate (indices path) = .ok c ∧ c.locate (indices path') = .ok d := by
  induction path generalizing b with
  | nil => simp [locate]
  | cons i path ih =>
      rw [List.cons_append, locate_indices_cons_iff]
      simp only [ih, locate_indices_cons_iff]
      constructor
      · intro h
        obtain ⟨child, hchild, c, hc, hd⟩ := h
        exact ⟨c, ⟨child, hchild, hc⟩, hd⟩
      · intro h
        obtain ⟨c, ⟨child, hchild, hc⟩, hd⟩ := h
        exact ⟨child, hchild, c, hc, hd⟩

/-- Below a block its children are reached by one index more. -/
theorem locate_indices_concat {t b c : Block α} {path : List ℕ} {i : ℕ}
    (h : t.locate (indices path) = .ok b) :
    t.locate (indices (path ++ [i])) = .ok c ↔ b.children[i]? = some c := by
  rw [locate_indices_append_iff]
  simp only [h, Except.ok.injEq, exists_eq_left', locate_indices_cons_iff, indices_nil, locate]
  simp

/-- Whatever steps an address takes, child indices lead to the same place. -/
theorem exists_indices {t b : Block α} {address : List Step} (h : t.locate address = .ok b) :
    ∃ path, t.locate (indices path) = .ok b ∧
      ∀ f, t.updateAt f address = t.updateAt f (indices path) := by
  induction address generalizing t with
  | nil => exact ⟨[], h, fun f => rfl⟩
  | cons step rest ih =>
      obtain ⟨c, hchild, hc⟩ := locate_cons_eq_ok_iff.mp h
      obtain ⟨path, hpath, hupdate⟩ := ih hc
      refine ⟨step.position t.children.length :: path, ?_, ?_⟩
      · exact locate_indices_cons_iff.mpr ⟨c, hchild, hpath⟩
      · intro f
        have hindex : t.child? (.index (step.position t.children.length)) = some c := hchild
        rw [indices, List.map_cons, updateAt, updateAt, hchild, hindex]
        dsimp only
        rw [hupdate f]
        rfl

end BlockOutline.Block
