import BlockOutline.Proofs.Outline.Blocks

/-! # Written values

What a document writes is one value at most, and it stays the same when keys are put in another
order. -/

namespace BlockOutline

open Toml (Node)

variable {β : Type} {Writes : Node → β → Prop}

/-! ## One value -/

/-- Nothing that writes a value writes another one as well. -/
def WritesOnly (Writes : Node → β → Prop) (value : β) : Prop :=
  ∀ node other, Writes node value → Writes node other → value = other

theorem writesOnly_string (text : String) : WritesOnly WritesString text := by
  rintro _ other ⟨span⟩ ⟨⟩
  rfl

theorem writesOnly_natural (value : ℕ) : WritesOnly WritesNatural value := by
  rintro _ other ⟨span⟩ h
  cases h
  rfl

theorem WritesOnly.array {values : List β} (h : ∀ value ∈ values, WritesOnly Writes value) :
    WritesOnly (WritesArray Writes) values := by
  rintro _ others ⟨span, hvalues⟩ ⟨_, hothers⟩
  induction hvalues generalizing others with
  | nil =>
      cases hothers
      rfl
  | @cons item value items values hvalue _ ih =>
      cases hothers with
      | @cons _ other _ others hother hothers =>
          rw [h value List.mem_cons_self item other hvalue hother,
            ih (fun v hv => h v (List.mem_cons_of_mem value hv)) others hothers]

theorem writesOnly_strings (texts : List String) : WritesOnly (WritesArray WritesString) texts :=
  .array fun text _ => writesOnly_string text

theorem WritesList.only {values : List β} (h : ∀ value ∈ values, WritesOnly Writes value)
    {written : Option Node} {others : List β} (hvalues : WritesList Writes written values)
    (hothers : WritesList Writes written others) : values = others := by
  cases hvalues with
  | absent =>
      cases hothers
      rfl
  | @given node _ hvalues =>
      cases hothers with
      | given hothers => exact WritesOnly.array h node others hvalues hothers

theorem WritesOnly.option {value : Option β} (h : ∀ v ∈ value, WritesOnly Writes v)
    {written : Option Node} {other : Option β} (hvalue : Option.Rel Writes written value)
    (hother : Option.Rel Writes written other) : value = other := by
  cases hvalue with
  | none =>
      cases hother
      rfl
  | @some node v hv =>
      cases hother with
      | @some _ w hw => rw [h v rfl node w hv hw]

theorem writesOnly_block (b : Block String) : WritesOnly WritesBlock b := by
  induction b with
  | mk prototype statements children ih =>
      rintro node _ ⟨record, -, hprototype, hstatements, hchildren⟩
        ⟨record', -, hprototype', hstatements', hchildren'⟩
      cases record.symm.trans record'
      rw [WritesOnly.option (fun v _ => writesOnly_string v) hprototype hprototype',
        hstatements.only (fun v _ => writesOnly_string v) hstatements',
        hchildren.only ih hchildren']

theorem writesOnly_expectations (e : Expectations) : WritesOnly WritesExpectations e := by
  rintro node e' ⟨record, -, height, blockCount, prototypes, statements, error⟩
    ⟨record', -, height', blockCount', prototypes', statements', error'⟩
  cases record.symm.trans record'
  have hheight := WritesOnly.option (fun v _ => writesOnly_natural v) height height'
  have hblockCount := WritesOnly.option (fun v _ => writesOnly_natural v) blockCount blockCount'
  have hprototypes := WritesOnly.option (fun v _ => writesOnly_strings v) prototypes prototypes'
  have hstatements := WritesOnly.option (fun v _ => writesOnly_strings v) statements statements'
  have herror := WritesOnly.option (fun v _ => writesOnly_string v) error error'
  cases e
  simp_all

theorem writesOnly_outline (o : Outline) : WritesOnly WritesOutline o := by
  rintro document o' ⟨record, -, description, found, root, expect⟩
    ⟨record', -, description', found', root', expect'⟩
  cases record.symm.trans record'
  cases found.symm.trans found'
  have hdescription := WritesOnly.option (fun v _ => writesOnly_string v) description description'
  have hroot := OutlineNode.build_injective (writesOnly_block o.tree _ _ root root')
  have hexpect := WritesOnly.option (fun v _ => writesOnly_expectations v) expect expect'
  cases o
  simp_all

/-! ## The shape of what writes a value -/

theorem lookup_eq_some_of_mem {members : List (String × Node)}
    (nodup : (members.map Prod.fst).Nodup) {m : String × Node} (hm : m ∈ members) :
    members.lookup m.1 = some m.2 := by
  obtain ⟨before, after, rfl⟩ := List.append_of_mem hm
  refine List.lookup_eq_some_iff.mpr ⟨before, after, rfl, ?_⟩
  intro earlier he
  rw [List.map_append, List.nodup_append] at nodup
  rw [bne_iff_ne]
  exact (nodup.2.2 _ (List.mem_map_of_mem he) _ (List.mem_map_of_mem List.mem_cons_self)).symm

theorem exists_mem_of_forall₂ {α : Type} {R : α → β → Prop} {xs : List α} {ys : List β}
    (h : List.Forall₂ R xs ys) : ∀ x ∈ xs, ∃ y ∈ ys, R x y := by
  induction h with
  | nil => simp
  | @cons x y xs ys hxy _ ih =>
      intro z hz
      rcases List.mem_cons.mp hz with rfl | hz
      · exact ⟨y, List.mem_cons_self, hxy⟩
      · obtain ⟨w, hw, hzw⟩ := ih z hz
        exact ⟨w, List.mem_cons_of_mem y hw, hzw⟩

theorem WritesArray.isArrayOf {Shape : Node → Prop} {node : Node} {values : List β}
    (h : WritesArray Writes node values)
    (hitem : ∀ item ∈ node.parts, ∀ value ∈ values, Writes item value → Shape item) :
    IsArrayOf Shape node := by
  obtain ⟨span, hvalues⟩ := h
  refine .intro span ?_
  intro item hi
  obtain ⟨value, hvalue, hwrites⟩ := exists_mem_of_forall₂ hvalues item hi
  exact hitem item hi value hvalue hwrites

theorem exists_of_rel {written : Option Node} {value : Option β} {node : Node}
    (hwritten : written = some node) (h : Option.Rel Writes written value) :
    ∃ v, Writes node v := by
  cases h with
  | none => cases hwritten
  | @some _ v hv =>
      cases hwritten
      exact ⟨v, hv⟩

theorem WritesBlock.isBlock {node : Node} (hn : node.DistinctKeys) {b : Block String}
    (h : WritesBlock node b) : IsBlock node := by
  induction b generalizing node with
  | mk prototype statements children ih =>
      obtain ⟨record, known, hprototype, hstatements, hchildren⟩ := h
      refine .intro record ?_
      intro m hm
      have hlookup := lookup_eq_some_of_mem (Record.nodup_members (by decide) hn record) hm
      have hpart := Record.mem_parts_of_mem_members record m hm
      have hname := known m hm
      obtain ⟨name, value⟩ := m
      simp only [Record.node, List.mem_cons, List.not_mem_nil, or_false] at hname
      rcases hname with rfl | rfl | rfl
      · obtain ⟨text, h⟩ := exists_of_rel hlookup hprototype
        exact .prototype (isString_iff.mpr ⟨text, h⟩)
      · rw [hlookup] at hstatements
        cases hstatements with
        | given h => exact .statements (isStrings_iff.mpr ⟨_, h⟩)
      · rw [hlookup] at hchildren
        cases hchildren with
        | given h =>
            refine .children (h.isArrayOf ?_)
            intro item hitem c hc hwrites
            exact ih c hc ((hn.of_mem_parts hpart).of_mem_parts hitem) hwrites

theorem WritesExpectations.isExpectations {node : Node} (hn : node.DistinctKeys)
    {e : Expectations} (h : WritesExpectations node e) : IsExpectations node := by
  obtain ⟨record, known, height, blockCount, prototypes, statements, error⟩ := h
  refine .intro record ?_
  intro m hm
  have hlookup := lookup_eq_some_of_mem (Record.nodup_members (by decide) hn record) hm
  have hname := known m hm
  obtain ⟨name, value⟩ := m
  simp only [Record.expectations, List.mem_cons, List.not_mem_nil, or_false] at hname
  rcases hname with rfl | rfl | rfl | rfl | rfl
  · obtain ⟨n, h⟩ := exists_of_rel hlookup height
    exact .height (isNatural_iff.mpr ⟨n, h⟩)
  · obtain ⟨n, h⟩ := exists_of_rel hlookup blockCount
    exact .blockCount (isNatural_iff.mpr ⟨n, h⟩)
  · obtain ⟨texts, h⟩ := exists_of_rel hlookup prototypes
    exact .prototypes (isStrings_iff.mpr ⟨texts, h⟩)
  · obtain ⟨texts, h⟩ := exists_of_rel hlookup statements
    exact .statements (isStrings_iff.mpr ⟨texts, h⟩)
  · obtain ⟨text, h⟩ := exists_of_rel hlookup error
    exact .error (isString_iff.mpr ⟨text, h⟩)

theorem WritesOutline.isOutlineField {document : Node} (hd : document.DistinctKeys) {o : Outline}
    (h : WritesOutline document o) (members : List (String × Node))
    (record : Record.outline.members document = some members) :
    ∀ m ∈ members, IsOutlineField m.1 m.2 := by
  obtain ⟨record', known, description, found, root, expect⟩ := h
  cases record.symm.trans record'
  intro m hm
  have hlookup := lookup_eq_some_of_mem (Record.nodup_members (by decide) hd record) hm
  have hpart := hd.of_mem_parts (Record.mem_parts_of_mem_members record m hm)
  have hname := known m hm
  obtain ⟨name, value⟩ := m
  simp only [Record.outline, List.mem_cons, List.not_mem_nil, or_false] at hname
  rcases hname with rfl | rfl | rfl
  · obtain ⟨text, h⟩ := exists_of_rel hlookup description
    exact .description (isString_iff.mpr ⟨text, h⟩)
  · cases hlookup.symm.trans found
    exact .root (root.isBlock hpart)
  · obtain ⟨e, h⟩ := exists_of_rel hlookup expect
    exact .expect (h.isExpectations hpart)

end BlockOutline
