import BlockOutline.Block.Slots
import BlockOutline.Proofs.Block.Addresses

/-! # Edits of a tree

A mutation adds at the ends of its block and leaves everything else where it is. So child indices go
on leading to the same blocks, and edits of different blocks can change places. -/

namespace BlockOutline

variable {α : Type}

/-! ## What a mutation adds -/

namespace Mutation

def newStatements : Mutation α → List α
  | addStatement s => [s]
  | addStatements ss => ss
  | _ => []

def newChildren : Mutation α → List (Block α)
  | addChild c => [c]
  | _ => []

theorem statements_apply (m : Mutation α) (b : Block α) :
    (m.apply b).statements = b.statements ++ m.newStatements := by
  cases m <;> simp [apply, newStatements, Block.addStatement, Block.addStatements,
    Block.setPrototype, Block.clearPrototype, Block.addChild]

theorem children_apply (m : Mutation α) (b : Block α) :
    (m.apply b).children = b.children ++ m.newChildren := by
  cases m <;> simp [apply, newChildren, Block.addStatement, Block.addStatements,
    Block.setPrototype, Block.clearPrototype, Block.addChild]

theorem child_apply {b c : Block α} {i : ℕ} (h : b.children[i]? = some c) (m : Mutation α) :
    (m.apply b).children[i]? = some c := by
  obtain ⟨hi, rfl⟩ := List.getElem?_eq_some_iff.mp h
  rw [children_apply, List.getElem?_append_left hi, h]

/-- A mutation does not look at the children that are there already. -/
theorem apply_replaceChild {b : Block α} {i : ℕ} (h : i < b.children.length) (m : Mutation α)
    (c : Block α) : m.apply (b.replaceChild i c) = (m.apply b).replaceChild i c := by
  cases m with
  | addChild added =>
      simp only [apply, Block.addChild, Block.replaceChild, List.set_append_left i c h]
  | _ => rfl

end Mutation

/-- A mutation with the address of the block that it is made at. -/
structure Edit (α : Type) where
  address : List Step
  mutation : Mutation α

/-- A mutation at the end of a path of child indices. -/
def Edit.ofPath (path : List ℕ) (m : Mutation α) : Edit α :=
  ⟨Block.indices path, m⟩

namespace Block

open Fallible

def edit (t : Block α) (e : Edit α) : Except ℕ (Block α) :=
  t.updateAt e.mutation.apply e.address

/-- Makes edits one after the other, as long as their addresses lead to blocks. -/
def editAll (t : Block α) (edits : List (Edit α)) : Except ℕ (Block α) :=
  edits.foldlM edit t

/-! ## One edit -/

theorem edit_ofPath_cons_iff {t t' : Block α} {i : ℕ} {path : List ℕ} {m : Mutation α} :
    t.edit (.ofPath (i :: path) m) = .ok t' ↔ ∃ c c', t.children[i]? = some c ∧
      c.edit (.ofPath path m) = .ok c' ∧ t' = t.replaceChild i c' :=
  updateAt_indices_cons_iff

theorem exists_edit {t b : Block α} {path : List ℕ} (h : t.locate (indices path) = .ok b)
    (m : Mutation α) : ∃ t', t.edit (.ofPath path m) = .ok t' :=
  (updateAt_isOk_iff m.apply (indices path) t).mpr ⟨b, h⟩

/-- An edit below a block changes nothing that the block has of its own. -/
theorem own_of_edit_below {b b' : Block α} {path : List ℕ} (hpath : path ≠ []) {m : Mutation α}
    (h : b.edit (.ofPath path m) = .ok b') :
    b'.prototype = b.prototype ∧ b'.statements = b.statements ∧
      b'.children.length = b.children.length := by
  cases path with
  | nil => exact absurd rfl hpath
  | cons i path =>
      obtain ⟨c, c', -, -, rfl⟩ := edit_ofPath_cons_iff.mp h
      exact ⟨rfl, rfl, List.length_set⟩

/-- What an edit leaves at a path: the block that was there, changed only if the edit was made at it
or below it. -/
theorem locate_of_edit {t t' b : Block α} {path place : List ℕ} {m : Mutation α}
    (hb : t.locate (indices path) = .ok b) (h : t.edit (.ofPath place m) = .ok t') :
    ∃ b', t'.locate (indices path) = .ok b' ∧
      (∀ rest, place = path ++ rest → b.edit (.ofPath rest m) = .ok b') ∧
      (¬path <+: place → b' = b) := by
  induction path generalizing t t' place with
  | nil =>
      cases hb
      refine ⟨t', rfl, ?_, ?_⟩
      · intro rest hplace
        rw [List.nil_append] at hplace
        rw [← hplace, h]
      · intro hapart
        exact absurd List.nil_prefix hapart
  | cons i path ih =>
      obtain ⟨c, hc, hb⟩ := locate_indices_cons_iff.mp hb
      cases place with
      | nil =>
          cases h
          refine ⟨b, ?_, by simp, fun _ => rfl⟩
          exact locate_indices_cons_iff.mpr ⟨c, m.child_apply hc, hb⟩
      | cons j place =>
          obtain ⟨d, d', hd, hedit, rfl⟩ := edit_ofPath_cons_iff.mp h
          by_cases hij : j = i
          · subst hij
            obtain rfl : d = c := Option.some.inj (hd.symm.trans hc)
            obtain ⟨b', hb', hbelow, hapart⟩ := ih hb hedit
            have hj : j < t.children.length := (List.getElem?_eq_some_iff.mp hd).1
            refine ⟨b', ?_, ?_, ?_⟩
            · refine locate_indices_cons_iff.mpr ⟨d', ?_, hb'⟩
              exact List.getElem?_set_self hj
            · intro rest hplace
              exact hbelow rest (List.cons.inj hplace).2
            · intro hbegins
              exact hapart fun hp => hbegins (List.cons_prefix_cons.mpr ⟨rfl, hp⟩)
          · refine ⟨b, ?_, ?_, fun _ => rfl⟩
            · refine locate_indices_cons_iff.mpr ⟨c, ?_, hb⟩
              rw [replaceChild, List.getElem?_set_ne hij]
              exact hc
            · intro rest hplace
              exact absurd (List.cons.inj hplace).1 hij

/-! ## Two edits -/

/-- An edit at the root can change places with an edit below it. -/
theorem edit_root_comm {t t' : Block α} {i : ℕ} {path : List ℕ} {m m' : Mutation α}
    (h : t.edit (.ofPath (i :: path) m) = .ok t') :
    (m'.apply t).edit (.ofPath (i :: path) m) = .ok (m'.apply t') := by
  obtain ⟨c, c', hc, hedit, rfl⟩ := edit_ofPath_cons_iff.mp h
  have hi : i < t.children.length := (List.getElem?_eq_some_iff.mp hc).1
  exact edit_ofPath_cons_iff.mpr ⟨c, c', m'.child_apply hc, hedit, m'.apply_replaceChild hi c'⟩

theorem edit_comm {t t₁ t₂ : Block α} {p q : List ℕ} (hne : p ≠ q) {f g : Mutation α}
    (hf : t.edit (.ofPath p f) = .ok t₁) (hg : t.edit (.ofPath q g) = .ok t₂) :
    ∃ t₃, t₁.edit (.ofPath q g) = .ok t₃ ∧ t₂.edit (.ofPath p f) = .ok t₃ := by
  induction p generalizing t t₁ t₂ q with
  | nil =>
      cases hf
      cases q with
      | nil => exact absurd rfl hne
      | cons j q => exact ⟨f.apply t₂, edit_root_comm hg, rfl⟩
  | cons i p ih =>
      cases q with
      | nil =>
          cases hg
          exact ⟨g.apply t₁, rfl, edit_root_comm hf⟩
      | cons j q =>
          obtain ⟨c, c', hc, hcf, rfl⟩ := edit_ofPath_cons_iff.mp hf
          obtain ⟨d, d', hd, hdg, rfl⟩ := edit_ofPath_cons_iff.mp hg
          have hi : i < t.children.length := (List.getElem?_eq_some_iff.mp hc).1
          have hj : j < t.children.length := (List.getElem?_eq_some_iff.mp hd).1
          by_cases hij : i = j
          · -- Both edits are made in the same child.
            subst hij
            obtain rfl : c = d := Option.some.inj (hc.symm.trans hd)
            obtain ⟨e, he, he'⟩ := ih (fun h => hne (congrArg (i :: ·) h)) hcf hdg
            refine ⟨t.replaceChild i e, ?_, ?_⟩
            · refine edit_ofPath_cons_iff.mpr ⟨c', e, List.getElem?_set_self hi, he, ?_⟩
              simp only [replaceChild, List.set_set]
            · refine edit_ofPath_cons_iff.mpr ⟨d', e, List.getElem?_set_self hi, he', ?_⟩
              simp only [replaceChild, List.set_set]
          · refine ⟨(t.replaceChild i c').replaceChild j d', ?_, ?_⟩
            · refine edit_ofPath_cons_iff.mpr ⟨d, d', ?_, hdg, rfl⟩
              rw [replaceChild, List.getElem?_set_ne hij]
              exact hd
            · refine edit_ofPath_cons_iff.mpr ⟨c, c', ?_, hcf, ?_⟩
              · rw [replaceChild, List.getElem?_set_ne (Ne.symm hij)]
                exact hc
              · simp only [replaceChild]
                rw [List.set_comm c' d' hij]

/-- The block at a path after an edit of another block: its own data are untouched, and it is the
block that was there, but for what was changed below it. -/
structure Remains (path place : List ℕ) (m : Mutation α) (b b' : Block α) : Prop where
  prototype : b'.prototype = b.prototype
  statements : b'.statements = b.statements
  childCount : b'.children.length = b.children.length
  apart : ¬path <+: place → b' = b
  below : ∀ rest, place = path ++ rest → b.edit (.ofPath rest m) = .ok b'

theorem exists_remains {t t' b : Block α} {path place : List ℕ} (hne : path ≠ place)
    {m : Mutation α} (hb : t.locate (indices path) = .ok b)
    (h : t.edit (.ofPath place m) = .ok t') :
    ∃ b', t'.locate (indices path) = .ok b' ∧ Remains path place m b b' := by
  obtain ⟨b', hb', hbelow, hapart⟩ := locate_of_edit hb h
  refine ⟨b', hb', ?_⟩
  by_cases hbegins : path <+: place
  · obtain ⟨rest, hrest⟩ := hbegins
    have hnil : rest ≠ [] := by
      intro hnil
      rw [hnil, List.append_nil] at hrest
      exact hne hrest
    obtain ⟨hprototype, hstatements, hcount⟩ := own_of_edit_below hnil (hbelow rest hrest.symm)
    exact ⟨hprototype, hstatements, hcount, hapart, hbelow⟩
  · obtain rfl := hapart hbegins
    exact ⟨rfl, rfl, rfl, hapart, hbelow⟩

/-! ## Any number of edits -/

/-- A block with what some of the edits, in their order, make of it. -/
def MadeBy (edits : List (Edit α)) (b b' : Block α) : Prop :=
  ∃ inside : List (Edit α), b.editAll inside = .ok b' ∧
    (inside.map Edit.mutation).Sublist (edits.map Edit.mutation)

/-- Along a run of edits a path keeps leading to the same block. -/
theorem locate_of_editAll {edits : List (Edit α)} {t t' b : Block α} {path : List ℕ}
    (h : t.editAll edits = .ok t') (hb : t.locate (indices path) = .ok b) :
    ∃ b', t'.locate (indices path) = .ok b' ∧ MadeBy edits b b' := by
  induction edits generalizing t b with
  | nil =>
      cases h
      exact ⟨b, hb, [], rfl, .slnil⟩
  | cons e edits ih =>
      obtain ⟨next, hnext, h⟩ := bind_eq_ok_iff.mp h
      obtain ⟨_, hplace⟩ := (updateAt_isOk_iff _ _ t).mp ⟨next, hnext⟩
      obtain ⟨place, -, hsame⟩ := exists_indices hplace
      have hedit : t.edit (.ofPath place e.mutation) = .ok next := (hsame _).symm.trans hnext
      obtain ⟨c, hc, hbelow, hapart⟩ := locate_of_edit hb hedit
      obtain ⟨b', hb', inside, hmade, hsublist⟩ := ih h hc
      by_cases hbegins : path <+: place
      · obtain ⟨rest, hrest⟩ := hbegins
        refine ⟨b', hb', .ofPath rest e.mutation :: inside, ?_, hsublist.cons_cons _⟩
        exact bind_eq_ok_iff.mpr ⟨c, hbelow rest hrest.symm, hmade⟩
      · obtain rfl := hapart hbegins
        exact ⟨b', hb', inside, hmade, hsublist.cons _⟩

theorem statements_prefix_of_edit {t t' : Block α} {e : Edit α} (h : t.edit e = .ok t') :
    t.statements <+: t'.statements := by
  obtain ⟨address, m⟩ := e
  cases address with
  | nil =>
      cases h
      rw [m.statements_apply]
      exact List.prefix_append _ _
  | cons step rest =>
      obtain ⟨c, c', -, -, rfl⟩ := updateAt_cons_eq_ok_iff.mp h
      exact List.prefix_rfl

theorem statements_prefix_of_editAll {edits : List (Edit α)} {t t' : Block α}
    (h : t.editAll edits = .ok t') : t.statements <+: t'.statements := by
  refine foldlM_preserves (fun s => t.statements <+: s.statements) ?_ List.prefix_rfl h
  intro s s' e _ hbegins hedit
  exact hbegins.trans (statements_prefix_of_edit hedit)

/-- A block that grew under some edits: its statements are followed by new ones, and its children,
each of them with what edits made of it, by new children. -/
structure Grown (edits : List (Edit α)) (b b' : Block α) : Prop where
  made : MadeBy edits b b'
  statements : b.statements <+: b'.statements
  children : ∃ kept added, b'.children = kept ++ added ∧
    List.Forall₂ (MadeBy edits) b.children kept

theorem exists_grown {edits : List (Edit α)} {t t' b : Block α} {path : List ℕ}
    (h : t.editAll edits = .ok t') (hb : t.locate (indices path) = .ok b) :
    ∃ b', t'.locate (indices path) = .ok b' ∧ Grown edits b b' := by
  obtain ⟨b', hb', hmade⟩ := locate_of_editAll h hb
  have hchild (i : ℕ) (hi : i < b.children.length) :
      ∃ c', b'.children[i]? = some c' ∧ MadeBy edits b.children[i] c' := by
    have hc : t.locate (indices (path ++ [i])) = .ok b.children[i] :=
      (locate_indices_concat hb).mpr (List.getElem?_eq_getElem hi)
    obtain ⟨c', hc', hmade'⟩ := locate_of_editAll h hc
    exact ⟨c', (locate_indices_concat hb').mp hc', hmade'⟩
  refine ⟨b', hb', hmade, ?_, b'.children.take b.children.length,
    b'.children.drop b.children.length, (List.take_append_drop _ _).symm, ?_⟩
  · obtain ⟨inside, hinside, -⟩ := hmade
    exact statements_prefix_of_editAll hinside
  · have hlength : b.children.length ≤ b'.children.length := by
      by_contra hlt
      obtain ⟨c', hc', -⟩ := hchild b'.children.length (by omega)
      simp at hc'
    refine List.forall₂_iff_get.mpr ⟨?_, ?_⟩
    · simp [hlength]
    · intro i hi hi'
      obtain ⟨c', hc', hmade'⟩ := hchild i hi
      obtain ⟨hlt, rfl⟩ := List.getElem?_eq_some_iff.mp hc'
      simpa using hmade'

/-- Edits whose paths lead to blocks of the first tree can all be made. -/
theorem exists_editAll {edits : List (Edit α)} {t : Block α}
    (h : ∀ e ∈ edits, ∃ path b, e.address = indices path ∧ t.locate (indices path) = .ok b) :
    ∃ t', t.editAll edits = .ok t' := by
  induction edits generalizing t with
  | nil => exact ⟨t, rfl⟩
  | cons e edits ih =>
      obtain ⟨place, c, haddress, hc⟩ := h e List.mem_cons_self
      obtain ⟨next, hnext⟩ := (updateAt_isOk_iff e.mutation.apply e.address t).mpr
        ⟨c, haddress ▸ hc⟩
      have hedit : t.editAll [e] = .ok next := bind_eq_ok_iff.mpr ⟨next, hnext, rfl⟩
      obtain ⟨t', ht'⟩ := ih (t := next) (by
        intro e' he'
        obtain ⟨path, b, haddress', hb⟩ := h e' (List.mem_cons_of_mem e he')
        obtain ⟨b', hb', -⟩ := locate_of_editAll hedit hb
        exact ⟨path, b', haddress', hb'⟩)
      exact ⟨t', bind_eq_ok_iff.mpr ⟨next, hnext, ht'⟩⟩

/-- Edits of different blocks can change places, and each path goes on leading to its block. Along
any run of edits a path that leads to a block leads to what grew of it, so edits at paths of the
first tree never fail. -/
theorem edits_commute (t : Block α) :
    (∀ p q b c, p ≠ q → t.locate (indices p) = .ok b → t.locate (indices q) = .ok c →
      ∀ f g : Mutation α, ∃ t₁ t₂ t₃ b' c',
        t.edit (.ofPath p f) = .ok t₁ ∧ t.edit (.ofPath q g) = .ok t₂ ∧
          t₁.edit (.ofPath q g) = .ok t₃ ∧ t₂.edit (.ofPath p f) = .ok t₃ ∧
          t₁.locate (indices q) = .ok c' ∧ Remains q p f c c' ∧
          t₂.locate (indices p) = .ok b' ∧ Remains p q g b b') ∧
      (∀ edits t', t.editAll edits = .ok t' → ∀ path b, t.locate (indices path) = .ok b →
        ∃ b', t'.locate (indices path) = .ok b' ∧ Grown edits b b') ∧
      ∀ edits : List (Edit α),
        (∀ e ∈ edits, ∃ path b, e.address = indices path ∧ t.locate (indices path) = .ok b) →
        ∃ t', t.editAll edits = .ok t' := by
  refine ⟨?_, ?_, fun edits => exists_editAll⟩
  · intro p q b c hne hb hc f g
    obtain ⟨t₁, hf⟩ := exists_edit hb f
    obtain ⟨t₂, hg⟩ := exists_edit hc g
    obtain ⟨t₃, hfg, hgf⟩ := edit_comm hne hf hg
    obtain ⟨c', hc', hremains⟩ := exists_remains (Ne.symm hne) hc hf
    obtain ⟨b', hb', hremains'⟩ := exists_remains hne hb hg
    exact ⟨t₁, t₂, t₃, b', c', hf, hg, hfg, hgf, hc', hremains, hb', hremains'⟩
  · intro edits t' h path b hb
    exact exists_grown h hb

/-- A child added at the root beside the branch that leads to the other edit, in a run that also
takes the last child. -/
theorem edits_commute_root :
    let t : Block ℕ := ⟨some "f", [1], [leaf none, ⟨some "g", [2], [leaf none]⟩]⟩
    let added : Mutation ℕ := .addChild (leaf (some "h"))
    let filled : Mutation ℕ := .addStatements [3, 4]
    (∃ t₁ t₂ t₃ b' c', t.edit (.ofPath [] added) = .ok t₁ ∧ t.edit (.ofPath [1] filled) = .ok t₂ ∧
        t₁.edit (.ofPath [1] filled) = .ok t₃ ∧ t₂.edit (.ofPath [] added) = .ok t₃ ∧
        t₁.locate (indices [1]) = .ok c' ∧ Remains [1] [] added ⟨some "g", [2], [leaf none]⟩ c' ∧
        t₂.locate (indices []) = .ok b' ∧ Remains [] [1] filled t b') ∧
      (∃ b', (⟨some "f", [1], [leaf none, ⟨none, [2], [leaf none]⟩]⟩ : Block ℕ).locate
            (indices [1]) = .ok b' ∧
          Grown [⟨[.last], .clearPrototype⟩] ⟨some "g", [2], [leaf none]⟩ b') ∧
      ∃ t', t.editAll [.ofPath [1, 0] added, .ofPath [1] filled] = .ok t' := by
  intro t added filled
  obtain ⟨commute, grow, succeed⟩ := edits_commute t
  refine ⟨commute [] [1] _ _ (by decide) rfl rfl added filled, grow _ _ rfl [1] _ rfl,
    succeed _ ?_⟩
  intro e he
  rcases List.mem_cons.mp he with rfl | he
  · exact ⟨[1, 0], leaf none, rfl, rfl⟩
  · rw [List.mem_singleton.mp he]
    exact ⟨[1], ⟨some "g", [2], [leaf none]⟩, rfl, rfl⟩

end Block

end BlockOutline
